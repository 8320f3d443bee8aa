import Mathlib.Data.List.Basic

namespace AgentWeb.Unwinding

variable {σ α β : Type} (perform : σ → α → β × σ)

def outputs : σ → List α → List β
  | _, [] => []
  | s, a :: as => (perform s a).1 :: outputs (perform s a).2 as

def final (s : σ) (as : List α) : σ := as.foldl (fun s a => (perform s a).2) s

def observed (mine : α → Bool) : σ → List α → List β
  | _, [] => []
  | s, a :: as =>
      let rest := observed mine (perform s a).2 as
      if mine a then (perform s a).1 :: rest else rest

variable {perform}

/-- The actions of the others can be purged from a run, where the two runs agree on what the
observer sees of an action of its own and such an action keeps them in agreement, and
where an action of somebody else is not seen at all. What agreement means may depend on what
is still to come. -/
theorem purge {mine : α → Bool} {Agree : List α → σ → σ → Prop}
    (hmine : ∀ a as s t, mine a = true → Agree (a :: as) s t →
      (perform s a).1 = (perform t a).1 ∧ Agree as (perform s a).2 (perform t a).2)
    (hother : ∀ a as s t, mine a = false → Agree (a :: as) s t → Agree as (perform s a).2 t)
    {s t : σ} {as : List α} (h : Agree as s t) :
    observed perform mine s as = outputs perform t (as.filter mine) ∧
      Agree [] (final perform s as) (final perform t (as.filter mine)) := by
  induction as generalizing s t with
  | nil => exact ⟨rfl, h⟩
  | cons a as ih =>
      cases hm : mine a with
      | true =>
          obtain ⟨hsame, hnext⟩ := hmine a as s t hm h
          obtain ⟨houtputs, hfinal⟩ := ih hnext
          rw [List.filter_cons_of_pos hm]
          refine ⟨?_, hfinal⟩
          simp only [observed, outputs, hm, if_true, hsame, houtputs]
      | false =>
          obtain ⟨houtputs, hfinal⟩ := ih (hother a as s t hm h)
          rw [List.filter_cons_of_neg (by simp [hm])]
          refine ⟨?_, hfinal⟩
          simpa only [observed, hm, Bool.false_eq_true, if_false] using houtputs

end AgentWeb.Unwinding
