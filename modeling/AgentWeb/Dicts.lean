import Mathlib.Data.List.Nodup

namespace AgentWeb.Dicts

structure OrderedDict (κ ν : Type*) where
  items : List (κ × ν)
  nodup : (items.map Prod.fst).Nodup

variable {κ ν : Type*}

def OrderedDict.empty : OrderedDict κ ν := ⟨[], List.nodup_nil⟩

variable [DecidableEq κ]

def OrderedDict.get (d : OrderedDict κ ν) (key : κ) : Option ν := (d.items.find? (·.1 = key)).map Prod.snd

/-- The items with the one of `key` replaced, or a new one in the end. -/
def assign (key : κ) (value : ν) : List (κ × ν) → List (κ × ν)
  | [] => [(key, value)]
  | item :: items => if item.1 = key then (key, value) :: items else item :: assign key value items

theorem keys_assign (key : κ) (value : ν) (items : List (κ × ν)) :
    (assign key value items).map Prod.fst =
      if key ∈ items.map Prod.fst then items.map Prod.fst else items.map Prod.fst ++ [key] := by
  induction items with
  | nil => simp [assign]
  | cons item items ih =>
      by_cases hkey : item.1 = key
      · simp [assign, hkey]
      · have hne : key ≠ item.1 := fun h => hkey h.symm
        simp only [assign, if_neg hkey, List.map_cons, ih, List.mem_cons, hne, false_or]
        split <;> rfl

def OrderedDict.set (d : OrderedDict κ ν) (key : κ) (value : ν) : OrderedDict κ ν where
  items := assign key value d.items
  nodup := by
    rw [keys_assign]
    split
    next => exact d.nodup
    next hkey =>
      rw [← List.concat_eq_append]
      exact d.nodup.concat hkey

@[simp] theorem get_empty (key : κ) : (OrderedDict.empty : OrderedDict κ ν).get key = none := rfl

@[simp] theorem get_set_self (d : OrderedDict κ ν) (key : κ) (value : ν) :
    (d.set key value).get key = some value := by
  have hfind : ∀ items : List (κ × ν),
      (assign key value items).find? (·.1 = key) = some (key, value) := by
    intro items
    induction items with
    | nil => simp [assign]
    | cons item items ih =>
        by_cases hkey : item.1 = key
        · simp [assign, hkey]
        · simpa [assign, hkey] using ih
  rw [OrderedDict.get, OrderedDict.set, hfind]
  rfl

theorem get_set_of_ne (d : OrderedDict κ ν) {key k : κ} (value : ν) (hk : k ≠ key) :
    (d.set key value).get k = d.get k := by
  have hfind : ∀ items : List (κ × ν),
      (assign key value items).find? (·.1 = k) = items.find? (·.1 = k) := by
    intro items
    induction items with
    | nil => simp [assign, hk.symm]
    | cons item items ih =>
        by_cases hkey : item.1 = key
        · simp [assign, hkey, hk.symm]
        · rw [assign, if_neg hkey, List.find?_cons, List.find?_cons, ih]
  rw [OrderedDict.get, OrderedDict.get, OrderedDict.set, hfind]

theorem mem_items_iff {d : OrderedDict κ ν} {key : κ} {value : ν} :
    (key, value) ∈ d.items ↔ d.get key = some value := by
  constructor
  · intro hmem
    cases hfind : d.items.find? (·.1 = key) with
    | none =>
        have hnone := List.find?_eq_none.mp hfind (key, value) hmem
        simp at hnone
    | some item =>
        have hkey : item.1 = key := by simpa using List.find?_some hfind
        have heq := List.inj_on_of_nodup_map d.nodup (List.mem_of_find?_eq_some hfind) hmem hkey
        rw [OrderedDict.get, hfind, heq]
        rfl
  · intro hget
    obtain ⟨item, hfind, rfl⟩ := Option.map_eq_some_iff.mp hget
    have hkey : item.1 = key := by simpa using List.find?_some hfind
    rw [← hkey]
    exact List.mem_of_find?_eq_some hfind

end AgentWeb.Dicts
