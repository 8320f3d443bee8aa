import AgentWeb.OnLine

namespace AgentWeb.Truncation

open Attempt PyText PyFloat PyJson Protocol Replay Sanitize OnLine

def Printable (s : Str) : Prop := ∀ c ∈ s, 32 ≤ c

theorem Printable.append {s t : Str} (hs : Printable s) (ht : Printable t) : Printable (s ++ t) :=
  List.forall_mem_append.mpr ⟨hs, ht⟩

theorem Printable.of_subset {s t : Str} (hs : Printable s) (h : t ⊆ s) : Printable t :=
  fun c hc => hs c (h hc)

theorem printable_replicate (n : Nat) : Printable (List.replicate n 48) := by
  intro c hc
  rw [List.eq_of_mem_replicate hc]
  decide

theorem printable_decimal (n : Nat) : Printable (decimal n) := by
  intro c hc
  obtain ⟨d, hd, rfl⟩ := List.mem_map.mp hc
  rw [Nat.toString_eq_ofList_toDigits, String.toList_ofList] at hd
  have hdigit := Nat.isDigit_of_mem_toDigits (by decide) (by decide) hd
  simp only [Char.isDigit, Bool.and_eq_true, decide_eq_true_eq, ge_iff_le] at hdigit
  exact le_trans (by decide) (UInt32.le_iff_toNat_le.mp hdigit.1)

theorem printable_decimalInt (i : Int) : Printable (decimalInt i) := by
  rw [decimalInt]
  refine .append ?_ (printable_decimal _)
  split <;> simp [Printable, str]

theorem printable_reprExponent (e : Int) : Printable (reprExponent e) := by
  rw [reprExponent]
  refine .append (.append ?_ ?_) (printable_decimal _)
  · split <;> simp [Printable, str]
  · split <;> simp [Printable, str]

theorem printable_reprFinite (mant : Nat) (exp : Int) : Printable (reprFinite mant exp) := by
  rw [reprFinite]
  split
  · simp [Printable, str]
  · have hdigits := printable_decimal (shortest mant exp).1
    have hpoint : Printable (str ".") := by simp [Printable, str]
    simp only
    generalize decimal (shortest mant exp).1 = digits at hdigits ⊢
    have hds : Printable (digits.rdropWhile (· = 48)) :=
      hdigits.of_subset (List.rdropWhile_prefix _ digits).subset
    generalize digits.rdropWhile (· = 48) = ds at hds ⊢
    have htake (n : Nat) : Printable (ds.take n) := hds.of_subset (List.take_subset _ _)
    have hdrop (n : Nat) : Printable (ds.drop n) := hds.of_subset (List.drop_subset _ _)
    split_ifs
    · exact .append (.append (htake 1) (by simp [Printable])) (printable_reprExponent _)
    · exact .append (.append (htake 1) (.append hpoint (hdrop 1))) (printable_reprExponent _)
    · exact .append (.append (by simp [Printable, str]) (printable_replicate _)) hds
    · exact .append (.append hds (printable_replicate _)) (by simp [Printable, str])
    · exact .append (.append (htake _) hpoint) (hdrop _)

theorem printable_dumpsFloat (x : Float64) : Printable (dumpsFloat x) := by
  cases x with
  | nan => simp [dumpsFloat, Printable, str]
  | inf neg => cases neg <;> simp [dumpsFloat, Printable, str]
  | finite neg m e =>
      rw [dumpsFloat, reprFloat]
      · refine .append ?_ (printable_reprFinite m e)
        cases neg <;> simp [Printable, str]
      all_goals simp

theorem printable_escapeChar (c : Nat) : Printable (escapeChar c) := by
  by_cases hc : c < 32
  · have hall : ∀ c < 32, ∀ d ∈ escapeChar c, 32 ≤ d := by decide
    exact hall c hc
  · rw [escapeChar]
    split_ifs <;> simp [Printable] <;> omega

theorem printable_dumpsText (s : Str) : Printable (dumpsText s) := by
  have hbody : Printable (s.flatMap escapeChar) := by
    intro c hc
    obtain ⟨d, -, hd⟩ := List.mem_flatMap.mp hc
    exact printable_escapeChar d c hd
  intro c hc
  simp only [dumpsText, List.mem_cons, List.mem_append, List.not_mem_nil, or_false] at hc
  rcases hc with (rfl | hc) | rfl
  · decide
  · exact hbody c hc
  · decide

mutual

theorem printable_dumps : ∀ v : Json, Printable (dumps v)
  | .null => by simp [dumps, Printable, str]
  | .bool b => by cases b <;> simp [dumps, Printable, str]
  | .int i => by
      rw [dumps]
      exact printable_decimalInt i
  | .float x => by
      rw [dumps]
      exact printable_dumpsFloat x
  | .str s => by
      rw [dumps]
      exact printable_dumpsText s
  | .arr xs => by
      rw [dumps]
      exact .append (.append (by simp [Printable, str]) (printable_dumpsItems xs))
        (by simp [Printable, str])
  | .obj d => by
      rw [dumps]
      exact .append (.append (by simp [Printable]) (printable_dumpsEntries d)) (by simp [Printable])

theorem printable_dumpsItems : ∀ xs : List Json, Printable (dumpsItems xs)
  | [] => by simp [dumpsItems, Printable]
  | [x] => by
      rw [dumpsItems]
      exact printable_dumps x
  | x :: y :: xs => by
      rw [dumpsItems]
      · exact .append (.append (printable_dumps x) (by simp [Printable, str]))
          (printable_dumpsItems (y :: xs))
      · simp

theorem printable_dumpsEntries : ∀ d : List (Str × Json), Printable (dumpsEntries d)
  | [] => by simp [dumpsEntries, Printable]
  | [(k, x)] => by
      rw [dumpsEntries]
      exact .append (.append (printable_dumpsText k) (by simp [Printable, str])) (printable_dumps x)
  | (k, x) :: e :: d => by
      rw [dumpsEntries]
      · exact .append (.append (.append (.append (printable_dumpsText k) (by simp [Printable, str]))
          (printable_dumps x)) (by simp [Printable, str])) (printable_dumpsEntries (e :: d))
      · simp

end

def emptied (payload : Dict) : Dict :=
  match Dict.get payload "data" with
  | some (.obj data) => match Dict.get data "preview" with
    | some _ => Dict.set payload "data" (.obj (Dict.set data "preview" (.str [])))
    | none => payload
  | _ => payload

def trimmedData (keep : Nat) (data : Dict) : Dict :=
  [(str "truncated", .bool true), (str "preview", .str ((dumps (.obj data)).take keep))]

section

variable [Interpreter]

theorem get_linePayload_data (event : ProtocolEvent) :
    Dict.get (linePayload event) "data" = some (.obj event.data) := by
  simp [linePayload, Dict.get_cons, str]

def envelopeKeys : List Str := ["type", "data", "malformed", "seq", "run_id", "unknown_kind"]

theorem linePayload_keys (event : ProtocolEvent) : ∀ p ∈ linePayload event, p.1 ∈ envelopeKeys := by
  intro p hp
  simp only [linePayload, List.mem_append] at hp
  rcases hp with ((hp | hp) | hp) | hp
  · simp only [List.mem_cons, List.not_mem_nil, or_false] at hp
    rcases hp with rfl | rfl | rfl <;> simp [envelopeKeys]
  · split at hp
    next => cases hp
    next =>
      rw [List.mem_singleton.mp hp]
      simp [envelopeKeys]
  · split at hp
    next => cases hp
    next =>
      rw [List.mem_singleton.mp hp]
      simp [envelopeKeys]
  · split at hp
    next =>
      split at hp
      next => cases hp
      next =>
        rw [List.mem_singleton.mp hp]
        simp [envelopeKeys]
    next => cases hp

theorem get_linePayload_none (event : ProtocolEvent) {k : Str} (hk : k ∉ envelopeKeys) :
    Dict.get (linePayload event) k = none := by
  rw [Dict.get, List.lookup_eq_none_iff]
  intro p hp
  rw [bne_iff_ne]
  rintro rfl
  exact hk (linePayload_keys event p hp)

omit [Interpreter] in
theorem trimField_of_missing {payload : Dict} {key : Str} (h : Dict.get payload key = none)
    (keep : Nat) : trimField keep payload key = payload := by
  rw [trimField, h]

theorem sanitizeEvent_over {event : ProtocolEvent} {maxBytes : Int} (hpos : 0 < maxBytes)
    (h : maxBytes < (dumps (.obj (linePayload event))).length) :
    sanitizeEvent (linePayload event) maxBytes =
      Dict.set (Dict.set (linePayload event) "data" (.obj (trimmedData (maxBytes / 2).toNat event.data)))
        "truncated" (.bool true) := by
  have hdata : trimField (maxBytes / 2).toNat (linePayload event) "data" =
      Dict.set (linePayload event) "data" (.obj (trimmedData (maxBytes / 2).toNat event.data)) := by
    rw [trimField, get_linePayload_data]
    rfl
  have hrest : ∀ key ∈ trimmedKeys.tail, Dict.get (Dict.set (linePayload event) "data"
      (.obj (trimmedData (maxBytes / 2).toNat event.data))) key = none := by
    intro key hkey
    rw [Dict.get_set_ne, get_linePayload_none]
    · revert key
      decide
    · revert key
      decide
  rw [sanitizeEvent, if_neg (by omega), max_eq_right (by omega)]
  simp only [trimmedKeys, List.foldl_cons, List.foldl_nil, hdata]
  rw [trimField_of_missing (hrest _ (by decide)), trimField_of_missing (hrest _ (by decide)),
    trimField_of_missing (hrest _ (by decide)), trimField_of_missing (hrest _ (by decide))]

structure Bounded (event : ProtocolEvent) (maxBytes : Int) (payload : Dict) : Prop where
  envelope : ∀ k ∈ ([str "type", str "seq", str "run_id"] : List Str),
    Dict.get payload k = Dict.get (linePayload event) k
  mapping : ∃ data, Dict.get payload "data" = some (.obj data)
  length_le : ((dumps (.obj payload)).length : Int) ≤
    maxBytes + (dumps (.obj (emptied payload))).length

end

end AgentWeb.Truncation
