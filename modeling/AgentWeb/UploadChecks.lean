import AgentWeb.PyDecode

namespace AgentWeb.UploadChecks

open PyText PyDecode

abbrev Bytes := List UInt8

/-- `Path(name).name`. -/
def pathName (name : Str) : Str :=
  ((name.splitOn 47).filter fun part => part ≠ [] ∧ part ≠ str ".").getLastD []

/-- A character that `_SAFE_NAME` does not match. -/
def isSafeChar (c : Nat) : Bool :=
  (65 ≤ c && c ≤ 90) || (97 ≤ c && c ≤ 122) || (48 ≤ c && c ≤ 57) || c == 46 || c == 95 || c == 45

/-- `_SAFE_NAME.sub("_", name)`, within a run of characters that it replaces or not. -/
def subUnsafe : Bool → Str → Str
  | _, [] => []
  | inRun, c :: cs =>
      if isSafeChar c then c :: subUnsafe false cs
      else (if inRun then [] else [95]) ++ subUnsafe true cs

def isDotOrUnderscore (c : Nat) : Bool := c == 46 || c == 95

/-- `.strip("._")`. -/
def stripDots (s : Str) : Str := (s.dropWhile isDotOrUnderscore).rdropWhile isDotOrUnderscore

/-- `value or fallback`. -/
def orElse (value fallback : Str) : Str := if value = [] then fallback else value

def safeFilename (name : Str) : Str :=
  let base := orElse (pathName name) "upload"
  let cleaned := orElse (stripDots (subUnsafe false base)) "upload"
  cleaned.take 200

def isHexDigit (c : Nat) : Bool := (48 ≤ c && c ≤ 57) || (97 ≤ c && c ≤ 102)

@[ext] structure Hex8 where
  digits : Str
  length_eq : digits.length = 8
  hex : ∀ c ∈ digits, isHexDigit c
deriving DecidableEq

def storedName (hex : Hex8) (clean : Str) : Str := hex.digits ++ "_" ++ clean

def durableKey (conversationId storedName : Str) : Str := conversationId ++ "/" ++ storedName

/-- `bytes.decode("utf-8")` raises nothing, behind the bytes of a character. -/
def decodesFrom : Option Partial → Bytes → Bool
  | none, [] => true
  | some _, [] => false
  | none, b :: bs => (startChar b.toNat).1 != [replacement] && decodesFrom (startChar b.toNat).2 bs
  | some p, b :: bs =>
      p.low ≤ b.toNat && b.toNat ≤ p.high && decodesFrom (nextByte b.toNat (some p)).2 bs

def isProbablyText (head : Bytes) : Bool :=
  if 0 ∈ head then false
  -- a character may be cut off at the end of the chunk
  else decodesFrom none head || decodesFrom none (head.take (head.length - 3))

def zipSignatures : List Bytes := [[80, 75, 3, 4], [80, 75, 5, 6], [80, 75, 7, 8]]

def signatures : List (Str × List Bytes) :=
  [("zip", zipSignatures), ("xlsx", zipSignatures), ("docx", zipSignatures), ("pptx", zipSignatures),
    ("pdf", [[37, 80, 68, 70, 45]]), ("png", [[137, 80, 78, 71, 13, 10, 26, 10]]),
    ("jpg", [[255, 216, 255]]), ("gif", [[71, 73, 70, 56, 55, 97], [71, 73, 70, 56, 57, 97]]),
    ("json", []), ("csv", []), ("txt", []), ("text", [])]

def textTypes : List Str := ["json", "csv", "txt", "text"]

/-- `.lower()`, as far as the keys of `_SIGNATURES` can tell: no other character
becomes one of theirs. -/
def lower (s : Str) : Str := s.map fun c => if 65 ≤ c ∧ c ≤ 90 then c + 32 else c

def sniffMatches (head : Bytes) (allowed : List Str) : Bool :=
  if allowed = [] then true
  else allowed.any fun name =>
    let key := (lower name).dropWhile (· == 46)
    match signatures.lookup key with
    | none => false
    | some sigs =>
        if textTypes.contains key then isProbablyText head else sigs.any (·.isPrefixOf head)

theorem pathName_of_component {name : Str} (hne : name ≠ []) (hslash : 47 ∉ name)
    (hdot : name ≠ str ".") : pathName name = name := by
  simp [pathName, List.splitOn_eq_singleton hslash, hne, hdot]

theorem subUnsafe_safe (inRun : Bool) (s : Str) : ∀ c ∈ subUnsafe inRun s, isSafeChar c := by
  induction s generalizing inRun with
  | nil => exact fun c h => absurd h List.not_mem_nil
  | cons d s ih =>
      rw [subUnsafe]
      split
      next hd => exact List.forall_mem_cons.mpr ⟨hd, ih false⟩
      next =>
        refine List.forall_mem_append.mpr ⟨fun c h => ?_, ih true⟩
        split at h
        · exact absurd h List.not_mem_nil
        · rw [List.mem_singleton] at h
          subst h
          decide

theorem stripDots_sublist (s : Str) : (stripDots s).Sublist s :=
  (List.rdropWhile_prefix _ _).sublist.trans (List.dropWhile_suffix _).sublist

theorem upload_safe : ∀ c ∈ str "upload", isSafeChar c := by decide

theorem safeFilename_safe (name : Str) : ∀ c ∈ safeFilename name, isSafeChar c := by
  intro c h
  replace h := List.mem_of_mem_take h
  rw [orElse] at h
  split at h
  · exact upload_safe c h
  · exact subUnsafe_safe false _ c ((stripDots_sublist _).subset h)

theorem slash_not_mem_storedName (hex : Hex8) (name : Str) :
    47 ∉ storedName hex (safeFilename name) := by
  intro h
  rw [storedName, List.append_assoc, List.mem_append, List.mem_append] at h
  rcases h with h | h | h
  · exact absurd (hex.hex 47 h) (by decide)
  · exact absurd h (by decide)
  · exact absurd (safeFilename_safe name 47 h) (by decide)

theorem takeWhile_key {a : Str} (h : 47 ∉ a) (c : Str) :
    (durableKey c a).reverse.takeWhile (· != 47) = a.reverse ∧
      (durableKey c a).reverse.dropWhile (· != 47) = 47 :: c.reverse := by
  have hrev : (durableKey c a).reverse = a.reverse ++ 47 :: c.reverse := by
    simp [durableKey, str]
  have hall : ∀ x ∈ a.reverse, (x != 47) = true := by
    intro x hx
    rw [bne_iff_ne]
    rintro rfl
    exact h (List.mem_reverse.mp hx)
  rw [hrev, List.takeWhile_append_of_pos hall, List.dropWhile_append_of_pos hall]
  simp

theorem durableKey_inj {c d a b : Str} (ha : 47 ∉ a) (hb : 47 ∉ b)
    (h : durableKey c a = durableKey d b) : c = d ∧ a = b := by
  obtain ⟨hname, hconversation⟩ := takeWhile_key ha c
  rw [h, (takeWhile_key hb d).1] at hname
  rw [h, (takeWhile_key hb d).2, List.cons_inj_right] at hconversation
  exact ⟨(List.reverse_injective hconversation).symm, (List.reverse_injective hname).symm⟩

example : safeFilename "../a b/%c.tar.gz_" = "c.tar.gz" := by decide

end AgentWeb.UploadChecks
