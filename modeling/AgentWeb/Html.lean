import AgentWeb.PyText

namespace AgentWeb.Html

open PyText

inductive Token
  | char (c : Nat)
  | start (name : Str)
  | close (name : Str)
deriving DecidableEq

/-- What a parser knows of the names between `<` and `>`, and between `&` and `;`. -/
structure Names where
  tag : Str → Option Token
  reference : Str → Option Nat

inductive State
  | data
  | tag (name : Str)
  | reference (name : Str)

variable (names : Names)

def tokens : State → Str → Option (List Token)
  | .data, [] => some []
  | .tag _, [] | .reference _, [] => none
  | .data, c :: s =>
      if c = 60 then tokens (.tag []) s
      else if c = 38 then tokens (.reference []) s
      else if c = 0 then tokens .data s
      else (tokens .data s).map (.char c :: ·)
  | .tag name, c :: s =>
      if c = 62 then (names.tag name).bind fun t => (tokens .data s).map (t :: ·)
      else tokens (.tag (name ++ [c])) s
  | .reference name, c :: s =>
      if c = 59 then (names.reference name).bind fun r => (tokens .data s).map (.char r :: ·)
      else tokens (.reference (name ++ [c])) s

def normalizeNewlines : Str → Str
  | 13 :: 10 :: s => 10 :: normalizeNewlines s
  | 13 :: s => 10 :: normalizeNewlines s
  | c :: s => c :: normalizeNewlines s
  | [] => []

def parse (html : Str) : Option (List Token) := tokens names .data (normalizeNewlines html)

def nested (isVoid : Str → Bool) : List Str → List Token → Bool
  | opened, [] => opened.isEmpty
  | opened, .char _ :: ts => nested isVoid opened ts
  | opened, .start name :: ts => if isVoid name then nested isVoid opened ts else nested isVoid (name :: opened) ts
  | [], .close _ :: _ => false
  | name' :: opened, .close name :: ts => name = name' && nested isVoid opened ts

variable {names}

theorem tokens_append {state : State} {a : Str} {ts : List Token} (h : tokens names state a = some ts) (b : Str) :
    tokens names state (a ++ b) = (tokens names .data b).map (ts ++ ·) := by
  induction a generalizing state ts with
  | nil =>
      cases state with
      | data =>
          obtain rfl := Option.some.inj h
          exact (Option.map_id' ..).symm
      | tag | reference => cases h
  | cons c a ih =>
      have hcons : ∀ {t : Token} {ts : List Token}, (tokens names .data a).map (t :: ·) = some ts →
          (tokens names .data (a ++ b)).map (t :: ·) = (tokens names .data b).map (ts ++ ·) := by
        intro t ts h
        obtain ⟨us, hus, rfl⟩ := Option.map_eq_some_iff.mp h
        rw [ih hus, Option.map_map]
        rfl
      rw [List.cons_append]
      cases state with
      | data =>
          rw [tokens] at h ⊢
          split
          next hc => exact ih (by rwa [if_pos hc] at h)
          next hc =>
            rw [if_neg hc] at h
            split
            next hc => exact ih (by rwa [if_pos hc] at h)
            next hc =>
              rw [if_neg hc] at h
              split
              next hc => exact ih (by rwa [if_pos hc] at h)
              next hc => exact hcons (by rwa [if_neg hc] at h)
      | tag name =>
          rw [tokens] at h ⊢
          split
          next hc =>
            rw [if_pos hc] at h
            obtain ⟨t, ht, h⟩ := Option.bind_eq_some_iff.mp h
            rw [ht, Option.bind_some, hcons h]
          next hc => exact ih (by rwa [if_neg hc] at h)
      | reference name =>
          rw [tokens] at h ⊢
          split
          next hc =>
            rw [if_pos hc] at h
            obtain ⟨r, hr, h⟩ := Option.bind_eq_some_iff.mp h
            rw [hr, Option.bind_some, hcons h]
          next hc => exact ih (by rwa [if_neg hc] at h)

theorem tokens_flatMap {α : Type} {xs : List α} {f : α → Str} {g : α → List Token}
    (h : ∀ a ∈ xs, tokens names .data (f a) = some (g a)) :
    tokens names .data (xs.flatMap f) = some (xs.flatMap g) := by
  induction xs with
  | nil => rfl
  | cons a xs ih =>
      obtain ⟨ha, hxs⟩ := List.forall_mem_cons.mp h
      rw [List.flatMap_cons, tokens_append ha, ih hxs]
      rfl

theorem normalizeNewlines_of_not_mem {s : Str} (h : 10 ∉ s) :
    normalizeNewlines s = s.map fun c => if c = 13 then 10 else c := by
  induction s with
  | nil => rfl
  | cons c s ih =>
      rw [List.mem_cons, not_or] at h
      rw [List.map_cons, ← ih h.2]
      split
      next hc =>
        subst hc
        rw [normalizeNewlines]
        rintro s' rfl
        exact h.2 List.mem_cons_self
      next hc =>
        rw [normalizeNewlines]
        · exact fun _ hc' _ => hc hc'
        · exact fun hc' => hc hc'

end AgentWeb.Html
