import Mathlib.Data.List.Nodup
import Mathlib.Data.Option.Basic

namespace AgentWeb.Tables

class Keyed (α : Type) (κ : outParam Type) where
  key : α → κ

open Keyed (key)

variable {α κ : Type} [Keyed α κ]

/-- The rows of a table in the order they are stored, no two with one key. -/
@[ext] structure Table (α : Type) {κ : Type} [Keyed α κ] where
  rows : List α
  nodup : (rows.map key).Nodup

namespace Table

variable {t : Table α} {a b : α} {k : κ} {p q : α → Bool}

def empty : Table α := ⟨[], List.nodup_nil⟩

def restrict (t : Table α) (p : α → Bool) : Table α :=
  ⟨t.rows.filter p, t.nodup.sublist (List.filter_sublist.map key)⟩

@[simp] theorem rows_restrict (t : Table α) (p : α → Bool) :
    (t.restrict p).rows = t.rows.filter p := rfl

theorem filter_restrict (h : ∀ a, q a = true → p a = true) :
    (t.restrict p).rows.filter q = t.rows.filter q := by
  rw [rows_restrict, List.filter_filter]
  refine List.filter_congr fun a _ => ?_
  cases hq : q a with
  | true => rw [h a hq, Bool.and_self]
  | false => rfl

theorem restrict_comm (t : Table α) (p q : α → Bool) :
    (t.restrict p).restrict q = (t.restrict q).restrict p :=
  Table.ext (List.filter_comm ..)

variable [DecidableEq κ]

def get? (t : Table α) (k : κ) : Option α := t.rows.find? fun a => key a = k

def insert (t : Table α) (a : α) : Option (Table α) :=
  if h : key a ∈ t.rows.map key then none
  else some ⟨t.rows ++ [a], by
    rw [List.map_append, List.map_singleton, List.nodup_append]
    exact ⟨t.nodup, List.nodup_singleton _, fun x hx y hy hxy =>
      h (List.mem_singleton.mp hy ▸ hxy ▸ hx)⟩⟩

def overwrite (a b : α) : α := if key b = key a then a else b

theorem key_overwrite (a b : α) : key (overwrite a b) = key b := by
  unfold overwrite
  split
  · next h => exact h.symm
  · rfl

/-- The row with the key of `a` becomes `a`. -/
def save (t : Table α) (a : α) : Table α :=
  ⟨t.rows.map (overwrite a), by
    have h : (t.rows.map (overwrite a)).map key = t.rows.map key := by
      rw [List.map_map]
      exact List.map_congr_left fun b _ => key_overwrite a b
    rw [h]
    exact t.nodup⟩

theorem get?_eq_some : t.get? k = some a ↔ a ∈ t.rows ∧ key a = k := by
  constructor
  · intro h
    exact ⟨List.mem_of_find?_eq_some h, by simpa using List.find?_some h⟩
  · rintro ⟨ha, rfl⟩
    cases h : t.get? (key a) with
    | none => simpa using List.find?_eq_none.mp h a ha
    | some b =>
        have hkey : key b = key a := by simpa using List.find?_some h
        rw [List.inj_on_of_nodup_map t.nodup (List.mem_of_find?_eq_some h) ha hkey]

theorem get?_eq_none : t.get? k = none ↔ ∀ a ∈ t.rows, key a ≠ k := by
  simp [get?, List.find?_eq_none]

theorem key_of_get? (h : t.get? k = some a) : key a = k := (get?_eq_some.mp h).2

theorem get?_restrict (t : Table α) (p : α → Bool) (k : κ) :
    (t.restrict p).get? k = (t.get? k).filter p := by
  cases h : t.get? k with
  | none =>
      rw [Option.filter_none, get?_eq_none]
      exact fun a ha => get?_eq_none.mp h a (List.mem_filter.mp ha).1
  | some a =>
      obtain ⟨ha, rfl⟩ := get?_eq_some.mp h
      cases hp : p a with
      | true =>
          rw [Option.filter_some_pos hp, get?_eq_some]
          exact ⟨List.mem_filter.mpr ⟨ha, hp⟩, rfl⟩
      | false =>
          rw [Option.filter_some_neg (by simp [hp]), get?_eq_none]
          rintro b hb hkey
          obtain ⟨hb, hpb⟩ := List.mem_filter.mp hb
          rw [List.inj_on_of_nodup_map t.nodup hb ha hkey, hp] at hpb
          exact absurd hpb (by decide)

theorem get?_restrict_of_key (h : ∀ a, key a = k → p a = true) :
    (t.restrict p).get? k = t.get? k := by
  rw [get?_restrict]
  cases hk : t.get? k with
  | none => rfl
  | some a => exact Option.filter_some_pos (h a (key_of_get? hk))

theorem insert_of_get? (h : t.get? (key a) = none) :
    ∃ t', t.insert a = some t' ∧ t'.rows = t.rows ++ [a] := by
  have hfresh : key a ∉ t.rows.map key := by
    rintro hmem
    obtain ⟨b, hb, hkey⟩ := List.mem_map.mp hmem
    exact get?_eq_none.mp h b hb hkey
  exact ⟨_, dif_neg hfresh, rfl⟩

theorem get?_of_insert {t' : Table α} (h : t.insert a = some t') : t'.get? (key a) = some a := by
  rw [insert] at h
  split at h
  · cases h
  · obtain rfl := Option.some.inj h
    exact get?_eq_some.mpr ⟨List.mem_append_right _ (List.mem_singleton.mpr rfl), rfl⟩

theorem rows_of_insert {t' : Table α} (h : t.insert a = some t') :
    t'.rows = t.rows ++ [a] ∧ t.get? (key a) = none := by
  rw [insert] at h
  split at h
  · cases h
  · next hfresh =>
      obtain rfl := Option.some.inj h
      exact ⟨rfl, get?_eq_none.mpr fun b hb hkey => hfresh (List.mem_map.mpr ⟨b, hb, hkey⟩)⟩

theorem get?_insert_of_some {t' : Table α} (h : t.insert a = some t') (hb : t.get? k = some b) :
    t'.get? k = some b := by
  obtain ⟨hmem, hkey⟩ := get?_eq_some.mp hb
  exact get?_eq_some.mpr ⟨(rows_of_insert h).1 ▸ List.mem_append_left _ hmem, hkey⟩

/-- With a new key, inserting commutes with a condition that the row meets, and
leaves the rows that a condition it does not meet selects. -/
theorem restrict_insert (h : t.get? (key a) = none) :
    ∃ t', t.insert a = some t' ∧
      (∀ p : α → Bool, p a = true → (t.restrict p).insert a = some (t'.restrict p)) ∧
      ∀ p : α → Bool, p a = false → t'.restrict p = t.restrict p := by
  obtain ⟨t', ht', hrows⟩ := insert_of_get? h
  refine ⟨t', ht', fun p hp => ?_, fun p hp => Table.ext ?_⟩
  · have hview : (t.restrict p).get? (key a) = none := by rw [get?_restrict, h, Option.filter_none]
    obtain ⟨t'', ht'', hrows'⟩ := insert_of_get? hview
    rw [ht'']
    refine congrArg some (Table.ext ?_)
    rw [hrows', rows_restrict, rows_restrict, hrows, List.filter_append, List.filter_singleton, hp]
    rfl
  · rw [rows_restrict, hrows, List.filter_append, List.filter_singleton, hp]
    exact List.append_nil _

theorem mem_save (h : b ∈ (t.save a).rows) :
    (b = a ∧ ∃ c, t.get? (key a) = some c) ∨ (b ∈ t.rows ∧ key b ≠ key a) := by
  obtain ⟨c, hc, rfl⟩ := List.mem_map.mp h
  unfold overwrite
  split
  · next hkey => exact .inl ⟨rfl, c, get?_eq_some.mpr ⟨hc, hkey⟩⟩
  · next hkey => exact .inr ⟨hc, hkey⟩

theorem get?_save (h : t.get? (key a) = some b) : (t.save a).get? (key a) = some a := by
  obtain ⟨hb, hkey⟩ := get?_eq_some.mp h
  refine get?_eq_some.mpr ⟨List.mem_map.mpr ⟨b, hb, ?_⟩, rfl⟩
  exact if_pos hkey

theorem get?_save_eq_none : (t.save a).get? k = none ↔ t.get? k = none := by
  simp [get?_eq_none, save, key_overwrite]

theorem restrict_save (h : t.get? (key a) = some b) (hp : p a = p b) :
    (t.save a).restrict p = (t.restrict p).save a := by
  refine Table.ext ?_
  change (t.rows.map (overwrite a)).filter p = (t.rows.filter p).map (overwrite a)
  rw [List.filter_map]
  refine congrArg _ (List.filter_congr fun c hc => ?_)
  rw [Function.comp_apply, overwrite]
  split
  · next hkey =>
      obtain ⟨hb, hkeyb⟩ := get?_eq_some.mp h
      rw [hp, List.inj_on_of_nodup_map t.nodup hc hb (hkey.trans hkeyb.symm)]
  · rfl

theorem restrict_save_of_not (h : t.get? (key a) = some b) (hp : p a = p b) (ha : p a = false) :
    (t.save a).restrict p = t.restrict p := by
  rw [restrict_save h hp]
  refine Table.ext ((List.map_congr_left fun c hc => ?_).trans (List.map_id _))
  obtain ⟨hc, hpc⟩ := List.mem_filter.mp hc
  refine if_neg fun hkey => ?_
  obtain ⟨hb, hkeyb⟩ := get?_eq_some.mp h
  rw [List.inj_on_of_nodup_map t.nodup hc hb (hkey.trans hkeyb.symm), ← hp, ha] at hpc
  exact absurd hpc (by decide)

end Table

end AgentWeb.Tables
