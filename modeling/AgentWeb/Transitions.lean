import Mathlib.Data.List.Basic
import Mathlib.Data.Option.Basic

namespace AgentWeb.Transitions

variable {σ ℓ : Type*} (step : σ → ℓ → Option σ)

/-- Taking labels one after the other. A label that is not enabled ends it. -/
def run (s : σ) (labels : List ℓ) : Option σ := labels.foldlM step s

/-- `P` holds at every point of the run. -/
def Always (P : σ → Prop) : σ → List ℓ → Prop
  | s, [] => P s
  | s, l :: ls => P s ∧ ∀ t, step s l = some t → Always P t ls

/-- Every step of the run is taken where `good` allows it. -/
def EachStep (good : σ → ℓ → Prop) : σ → List ℓ → Prop
  | _, [] => True
  | s, l :: ls => good s l ∧ ∀ t, step s l = some t → EachStep good t ls

variable {step}

@[simp] theorem run_nil (s : σ) : run step s [] = some s := rfl

theorem run_cons (s : σ) (l : ℓ) (ls : List ℓ) :
    run step s (l :: ls) = (step s l).bind fun t => run step t ls := rfl

theorem run_append (s : σ) (ls ms : List ℓ) :
    run step s (ls ++ ms) = (run step s ls).bind fun t => run step t ms :=
  List.foldlM_append

theorem run_cons_eq_some {s u : σ} {l : ℓ} {ls : List ℓ} :
    run step s (l :: ls) = some u ↔ ∃ t, step s l = some t ∧ run step t ls = some u := by
  rw [run_cons, Option.bind_eq_some_iff]

/-- An invariant of the steps is an invariant of the runs. -/
theorem run_invariant {I : σ → Prop} (hI : ∀ s l t, I s → step s l = some t → I t)
    {s t : σ} {ls : List ℓ} (hs : I s) (hr : run step s ls = some t) : I t := by
  induction ls generalizing s with
  | nil =>
      cases hr
      exact hs
  | cons l ls ih =>
      obtain ⟨u, hu, hr⟩ := run_cons_eq_some.mp hr
      exact ih (hI s l u hs hu) hr

def Passes (step : σ → ℓ → Option σ) (s : σ) (labels : List ℓ) (t : σ) : Prop :=
  ∃ ls ms, labels = ls ++ ms ∧ run step s ls = some t

theorem passes_start (s : σ) (ls : List ℓ) : Passes step s ls s := ⟨[], ls, rfl, rfl⟩

theorem Passes.tail {s t u : σ} {l : ℓ} {ls : List ℓ} (ht : step s l = some t)
    (h : Passes step t ls u) : Passes step s (l :: ls) u := by
  obtain ⟨ms, ns, rfl, hr⟩ := h
  exact ⟨l :: ms, ns, rfl, run_cons_eq_some.mpr ⟨t, ht, hr⟩⟩

theorem run_invariant_of_passes {I P : σ → Prop}
    (hI : ∀ s l t, P t → I s → step s l = some t → I t) {s t : σ} {ls : List ℓ}
    (hP : ∀ u, Passes step s ls u → P u) (hs : I s) (hr : run step s ls = some t) : I t := by
  induction ls generalizing s with
  | nil =>
      cases hr
      exact hs
  | cons l ls ih =>
      obtain ⟨u, hu, hr⟩ := run_cons_eq_some.mp hr
      refine ih (fun v hv => hP v (hv.tail hu)) (hI s l u ?_ hs hu) hr
      exact hP u ((passes_start u ls).tail hu)

theorem Always.head {P : σ → Prop} {s : σ} {ls : List ℓ} (h : Always step P s ls) : P s := by
  cases ls with
  | nil => exact h
  | cons l ls => exact h.1

theorem Always.final {P : σ → Prop} {s t : σ} {ls : List ℓ} (h : Always step P s ls)
    (hr : run step s ls = some t) : P t := by
  induction ls generalizing s with
  | nil =>
      cases hr
      exact h
  | cons l ls ih =>
      obtain ⟨u, hu, hr⟩ := run_cons_eq_some.mp hr
      exact ih (h.2 u hu) hr

theorem eachStep_cons_iff {good : σ → ℓ → Prop} {s t : σ} {l : ℓ} {ls : List ℓ}
    (ht : step s l = some t) :
    EachStep step good s (l :: ls) ↔ good s l ∧ EachStep step good t ls := by
  refine and_congr_right fun _ => ⟨fun h => h t ht, fun h u hu => ?_⟩
  cases ht.symm.trans hu
  exact h

theorem EachStep.cons {good : σ → ℓ → Prop} {s t : σ} {l : ℓ} {ls : List ℓ} (hg : good s l)
    (ht : step s l = some t) (h : EachStep step good t ls) : EachStep step good s (l :: ls) :=
  (eachStep_cons_iff ht).mpr ⟨hg, h⟩

theorem EachStep.last {good : σ → ℓ → Prop} {s t : σ} {ls : List ℓ} {l : ℓ}
    (h : EachStep step good s (ls ++ [l])) (hr : run step s ls = some t) : good t l := by
  induction ls generalizing s with
  | nil =>
      cases hr
      exact h.1
  | cons m ls ih =>
      obtain ⟨u, hu, hr⟩ := run_cons_eq_some.mp hr
      exact ih (h.2 u hu) hr

instance decidableEachStep {good : σ → ℓ → Prop} [∀ s l, Decidable (good s l)] :
    (s : σ) → (ls : List ℓ) → Decidable (EachStep step good s ls)
  | _, [] => .isTrue trivial
  | s, l :: ls =>
      match h : step s l with
      | none => decidable_of_iff (good s l) (by simp [EachStep, h])
      | some t =>
          have : Decidable (EachStep step good t ls) := decidableEachStep t ls
          decidable_of_iff (good s l ∧ EachStep step good t ls) (by simp [EachStep, h])

/-- A property that a stronger one carries through the good steps. -/
theorem always_of_eachStep {I J : σ → Prop} {good : σ → ℓ → Prop} (hJI : ∀ s, J s → I s)
    (hJ : ∀ s l t, J s → good s l → step s l = some t → J t)
    {s : σ} {ls : List ℓ} (hs : J s) (hg : EachStep step good s ls) : Always step I s ls := by
  induction ls generalizing s with
  | nil => exact hJI s hs
  | cons l ls ih => exact ⟨hJI s hs, fun t ht => ih (hJ s l t hs hg.1 ht) (hg.2 t ht)⟩

/-- The good steps are exactly those that keep the property, where a step that
is not enabled counts as good. -/
theorem always_iff_eachStep {I J : σ → Prop} {good : σ → ℓ → Prop} (hJI : ∀ s, J s → I s)
    (hJ : ∀ s l t, J s → good s l → step s l = some t → J t)
    (hI : ∀ s l t, J s → step s l = some t → I t → good s l)
    (hstuck : ∀ s l, step s l = none → good s l)
    {s : σ} {ls : List ℓ} (hs : J s) : Always step I s ls ↔ EachStep step good s ls := by
  refine ⟨fun h => ?_, always_of_eachStep hJI hJ hs⟩
  induction ls generalizing s with
  | nil => trivial
  | cons l ls ih =>
      cases ht : step s l with
      | none => exact ⟨hstuck s l ht, fun t h => by simp [ht] at h⟩
      | some t =>
          have hg := hI s l t hs ht (h.2 t ht).head
          refine ⟨hg, fun u hu => ?_⟩
          cases ht.symm.trans hu
          exact ih (hJ s l t hs hg ht) (h.2 t ht)

theorem always_of_invariant {I J : σ → Prop} (hJI : ∀ s, J s → I s)
    (hJ : ∀ s l t, J s → step s l = some t → J t) {s : σ} {ls : List ℓ} (hs : J s) :
    Always step I s ls := by
  induction ls generalizing s with
  | nil => exact hJI s hs
  | cons l ls ih => exact ⟨hJI s hs, fun t ht => ih (hJ s l t hs ht)⟩

theorem eachStep_of_invariant {J : σ → Prop} {good : σ → ℓ → Prop}
    (hJ : ∀ s l t, J s → step s l = some t → J t) (hgood : ∀ s l, J s → good s l)
    {s : σ} {ls : List ℓ} (hs : J s) : EachStep step good s ls := by
  induction ls generalizing s with
  | nil => trivial
  | cons l ls ih => exact ⟨hgood s l hs, fun t ht => ih (hJ s l t hs ht)⟩

theorem eachStep_congr {J : σ → Prop} {good good' : σ → ℓ → Prop}
    (hJ : ∀ s l t, J s → step s l = some t → J t) (h : ∀ s l, J s → (good s l ↔ good' s l))
    {s : σ} {ls : List ℓ} (hs : J s) : EachStep step good s ls ↔ EachStep step good' s ls := by
  induction ls generalizing s with
  | nil => rfl
  | cons l ls ih =>
      exact and_congr (h s l hs) (forall_congr' fun t => imp_congr_right fun ht => ih (hJ s l t hs ht))

theorem eachStep_congr_of_good {J : σ → Prop} {good good' : σ → ℓ → Prop}
    (hJ : ∀ s l t, J s → good s l → step s l = some t → J t)
    (h : ∀ s l, J s → (good' s l ↔ good s l)) {s : σ} {ls : List ℓ} (hs : J s) :
    EachStep step good' s ls ↔ EachStep step good s ls := by
  induction ls generalizing s with
  | nil => rfl
  | cons l ls ih =>
      rw [EachStep, EachStep, h s l hs]
      exact and_congr_right fun hg => forall_congr' fun t => imp_congr_right fun ht =>
        ih (hJ s l t hs hg ht)

/-- A property that lasts through the good steps and through no others holds at the end of
a run just where it held at the start and each step is good. -/
theorem final_iff_eachStep {J G : σ → Prop} {good : σ → ℓ → Prop}
    (hJ : ∀ s l t, J s → step s l = some t → J t)
    (h : ∀ s l t, J s → step s l = some t → (G t ↔ G s ∧ good s l))
    {s t : σ} {ls : List ℓ} (hs : J s) (hr : run step s ls = some t) :
    G t ↔ G s ∧ EachStep step good s ls := by
  induction ls generalizing s with
  | nil =>
      cases hr
      exact (and_iff_left trivial).symm
  | cons l ls ih =>
      obtain ⟨u, hu, hr⟩ := run_cons_eq_some.mp hr
      rw [ih (hJ s l u hs hu) hr, h s l u hs hu, eachStep_cons_iff hu, and_assoc]

end AgentWeb.Transitions
