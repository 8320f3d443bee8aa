import AgentWeb.Attempt

namespace AgentWeb.Agreement

open Attempt

variable {α β ε σ ν : Type}

inductive Agree (idle : α → Prop) : List α → List α → Prop
  | nil : Agree idle [] []
  | both (x : α) {xs ys : List α} (h : Agree idle xs ys) : Agree idle (x :: xs) (x :: ys)
  | left {x : α} {xs ys : List α} (hx : idle x) (h : Agree idle xs ys) : Agree idle (x :: xs) ys
  | right {x : α} {xs ys : List α} (hx : idle x) (h : Agree idle xs ys) : Agree idle xs (x :: ys)

variable {idle : α → Prop}

theorem Agree.append_both (xs : List α) {ys zs : List α} (h : Agree idle ys zs) :
    Agree idle (xs ++ ys) (xs ++ zs) := by
  induction xs with
  | nil => exact h
  | cons x xs ih => exact .both x ih

theorem Agree.refl (xs : List α) : Agree idle xs xs := by
  simpa using Agree.append_both xs .nil

theorem Agree.mapM {idle' : β → Prop} {f : α → Except ε β}
    (hf : ∀ x, idle x → ∃ y, f x = .ok y ∧ idle' y) {xs ys : List α} (h : Agree idle xs ys) :
    (∃ bs cs, xs.mapM f = .ok bs ∧ ys.mapM f = .ok cs ∧ Agree idle' bs cs) ∨
      ∃ e, xs.mapM f = .error e ∧ ys.mapM f = .error e := by
  induction h with
  | nil => exact .inl ⟨[], [], rfl, rfl, .nil⟩
  | both x _ ih =>
      rw [List.mapM_cons, List.mapM_cons]
      cases hx : f x with
      | error e => exact .inr ⟨e, rfl, rfl⟩
      | ok b =>
          rcases ih with ⟨bs, cs, hb, hc, h⟩ | ⟨e, hb, hc⟩
          · exact .inl ⟨b :: bs, b :: cs, by simp [hb], by simp [hc], .both b h⟩
          · exact .inr ⟨e, by simp [hb], by simp [hc]⟩
  | left hx _ ih =>
      obtain ⟨b, hb, hidle⟩ := hf _ hx
      rw [List.mapM_cons, hb]
      rcases ih with ⟨bs, cs, hbs, hcs, h⟩ | ⟨e, hbs, hcs⟩
      · exact .inl ⟨b :: bs, cs, by simp [hbs], hcs, .left hidle h⟩
      · exact .inr ⟨e, by simp [hbs], hcs⟩
  | right hx _ ih =>
      obtain ⟨b, hb, hidle⟩ := hf _ hx
      rw [List.mapM_cons, hb]
      rcases ih with ⟨bs, cs, hbs, hcs, h⟩ | ⟨e, hbs, hcs⟩
      · exact .inl ⟨bs, b :: cs, hbs, by simp [hcs], .right hidle h⟩
      · exact .inr ⟨e, hbs, by simp [hcs]⟩

/-- Where idle elements do not show and a view of the state decides what a step
does to that view, two such lists are folded to the same view. -/
theorem Agree.foldlM {f : σ → α → Except ε σ} {view : σ → ν}
    (hidle : ∀ x, idle x → ∀ s, ∃ s', f s x = .ok s' ∧ view s' = view s)
    (hview : ∀ s s' x, view s = view s' → (f s x).map view = (f s' x).map view)
    {xs ys : List α} (h : Agree idle xs ys) {s s' : σ} (hs : view s = view s') :
    (xs.foldlM f s).map view = (ys.foldlM f s').map view := by
  induction h generalizing s s' with
  | nil => simpa using hs
  | both x _ ih =>
      have hstep := hview s s' x hs
      rw [List.foldlM_cons, List.foldlM_cons]
      cases h1 : f s x with
      | error e =>
          rw [h1] at hstep
          cases h2 : f s' x with
          | error e' =>
              rw [h2] at hstep
              cases hstep
              rfl
          | ok t' => simp [h2] at hstep
      | ok t =>
          rw [h1] at hstep
          cases h2 : f s' x with
          | error e' => simp [h2] at hstep
          | ok t' =>
              rw [h2] at hstep
              exact ih (by simpa using hstep)
  | left hx _ ih =>
      obtain ⟨t, ht, hv⟩ := hidle _ hx s
      rw [List.foldlM_cons, ht]
      exact ih (hv.trans hs)
  | right hx _ ih =>
      obtain ⟨t, ht, hv⟩ := hidle _ hx s'
      rw [List.foldlM_cons, ht]
      exact ih (hs.trans hv.symm)

end AgentWeb.Agreement
