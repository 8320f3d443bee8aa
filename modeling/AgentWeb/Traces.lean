import AgentWeb.Noninterference
import Mathlib.Logic.Relation

namespace AgentWeb.Traces

open Noninterference Relation

variable {σ τ ε ε' α β : Type} {π : σ → τ} {R : τ → τ → Prop} {P P' : τ → Prop}
  {Q Q' : α → τ → Prop} {S : β → τ → Prop}

/-- From the states with `P`, what the program does to the part of the state that is looked at
is a sequence of writes in `R`, also where it raises. What it returns meets `Q`. -/
structure Traced (π : σ → τ) (R : τ → τ → Prop) (P : τ → Prop) (m : Program σ ε α)
    (Q : α → τ → Prop) : Prop where
  path : ∀ s, P (π s) → ReflTransGen R (π s) (π (exec m s).2)
  post : ∀ s, P (π s) → ∀ a t, exec m s = (.ok a, t) → Q a (π t)

namespace Traced

theorem consequence {m : Program σ ε α} (h : Traced π R P m Q) (hpre : ∀ t, P' t → P t)
    (hpost : ∀ a t, Q a t → Q' a t) : Traced π R P' m Q' where
  path s hs := h.path s (hpre _ hs)
  post s hs a t he := hpost a _ (h.post s (hpre _ hs) a t he)

theorem pre {m : Program σ ε α} (h : Traced π R P m Q) (hpre : ∀ t, P' t → P t) :
    Traced π R P' m Q :=
  h.consequence hpre fun _ _ hq => hq

theorem forget {m : Program σ ε α} (h : Traced π R P m Q) : Traced π R P m fun _ _ => True :=
  h.consequence (fun _ hp => hp) fun _ _ _ => trivial

/-- What the states with `P` have in common is at hand in the proof. -/
theorem of_fact {m : Program σ ε α} {φ : Prop} (h : ∀ t, P t → φ) (hm : φ → Traced π R P m Q) :
    Traced π R P m Q where
  path s hs := (hm (h _ hs)).path s hs
  post s hs := (hm (h _ hs)).post s hs

theorem pure {a : α} (h : ∀ t, P t → Q a t) : Traced π R P (pure a : Program σ ε α) Q where
  path _ _ := .refl
  post s hs _ _ he := by
    obtain ⟨rfl, rfl⟩ : a = _ ∧ s = _ := by simpa using he
    exact h _ hs

theorem throw {e : ε} : Traced π R P (throw e : Program σ ε α) Q where
  path _ _ := .refl
  post s _ a t he := by simp at he

theorem bind {m : Program σ ε α} {f : α → Program σ ε β} (hm : Traced π R P m Q)
    (hf : ∀ a, Traced π R (Q a) (f a) S) : Traced π R P (m >>= f) S where
  path s hs := by
    have hpath := hm.path s hs
    rw [exec_bind]
    rcases he : exec m s with ⟨r, t⟩
    rw [he] at hpath
    cases r with
    | error e => exact hpath
    | ok a => exact hpath.trans ((hf a).path t (hm.post s hs a t he))
  post s hs c u hu := by
    rw [exec_bind] at hu
    rcases he : exec m s with ⟨r, t⟩
    rw [he] at hu
    cases r with
    | error e => simp at hu
    | ok a => exact (hf a).post t (hm.post s hs a t he) c u hu

theorem query {f : τ → α} (h : ∀ t, P t → Q (f t) t) :
    Traced π R P (query fun s => f (π s) : Program σ ε α) Q where
  path _ _ := .refl
  post s hs a t he := by
    obtain ⟨rfl, rfl⟩ : f (π s) = a ∧ s = t := by simpa using he
    exact h _ hs

theorem modify {f : σ → σ} {g : τ → τ} (hf : ∀ s, π (f s) = g (π s)) (hR : ∀ t, P t → ReflTransGen R t (g t))
    {Q : Unit → τ → Prop} (h : ∀ t, P t → Q () (g t)) :
    Traced π R P (modify f : Program σ ε Unit) Q where
  path s hs := by
    rw [exec_modify, hf]
    exact hR _ hs
  post s hs a t he := by
    obtain ⟨-, rfl⟩ : () = a ∧ f s = t := by simpa using he
    rw [hf]
    exact h _ hs

theorem write {f : σ → Option σ} {g : τ → Option τ} {e : ε} (hf : ∀ s, (f s).map π = g (π s))
    (hR : ∀ t, P t → ∀ u, g t = some u → R t u) {Q : Unit → τ → Prop}
    (h : ∀ t, P t → ∀ u, g t = some u → Q () u) : Traced π R P (write f e) Q where
  path s hs := by
    have hs' := hf s
    rw [exec_write]
    cases he : f s with
    | none => exact .refl
    | some t =>
        rw [he, Option.map_some] at hs'
        exact .single (hR _ hs _ hs'.symm)
  post s hs a t he := by
    have hs' := hf s
    rw [exec_write] at he
    cases hfs : f s with
    | none => simp [hfs] at he
    | some u =>
        obtain ⟨-, rfl⟩ : () = a ∧ u = t := by simpa [hfs] using he
        rw [hfs, Option.map_some] at hs'
        exact h _ hs _ hs'.symm

theorem raiseAll {x : Except ε α} (h : ∀ a, x = .ok a → ∀ t, P t → Q a t) :
    Traced π R P (raiseAll x : Program σ ε α) Q where
  path s _ := by rw [exec_raiseAll]
  post s hs a t he := by
    obtain ⟨hx, rfl⟩ : x = .ok a ∧ s = t := by simpa using he
    exact h a hx _ hs

theorem adapt {m : Program σ ε α} (g : ε → ε') (h : Traced π R P m Q) :
    Traced π R P (ExceptT.adapt g m) Q where
  path s hs := h.path s hs
  post s hs a t he := by
    rw [exec_adapt] at he
    refine h.post s hs a t ?_
    rcases hm : exec m s with ⟨r, u⟩
    rw [hm] at he
    cases r with
    | error e => simp [Except.mapError] at he
    | ok c => simpa [Except.mapError] using he

/-- What is committed in one go is one write, whatever the program has written on the way. -/
theorem atomically {R' : τ → τ → Prop} {m : Program σ ε α} {restore : σ → σ → σ} (hm : Traced π R' P m Q)
    (hrestore : ∀ s t, π (restore s t) = π s) (hR : ∀ t a u, P t → Q a u → R t u) :
    Traced π R P (transaction restore m) fun
      | .ok a => Q a
      | .error _ => P where
  path s hs := by
    have hpost := hm.post s hs
    rw [exec_transaction]
    rcases he : exec m s with ⟨r, t⟩
    cases r with
    | error e => exact (hrestore s t).symm ▸ .refl
    | ok a => exact .single (hR _ a _ hs (hpost a t he))
  post s hs x u hu := by
    rw [exec_transaction] at hu
    rcases he : exec m s with ⟨r, t⟩
    rw [he] at hu
    cases r with
    | error e =>
        obtain ⟨rfl, rfl⟩ : Except.error e = x ∧ restore s t = u := by simpa using hu
        rw [hrestore]
        exact hs
    | ok a =>
        obtain ⟨rfl, rfl⟩ : Except.ok a = x ∧ t = u := by simpa using hu
        exact hm.post s hs a t he

/-- What is rolled back has not been written. -/
theorem transaction {m : Program σ ε α} {restore : σ → σ → σ} (hm : Traced π R P m Q)
    (hrestore : ∀ s t, π (restore s t) = π s) :
    Traced π R P (transaction restore m) fun
      | .ok a => Q a
      | .error _ => P where
  path s hs := by
    have hpath := hm.path s hs
    rw [exec_transaction]
    rcases he : exec m s with ⟨r, t⟩
    rw [he] at hpath
    cases r with
    | error e => exact (hrestore s t).symm ▸ .refl
    | ok a => exact hpath
  post := (hm.atomically (R := fun _ _ => True) hrestore fun _ _ _ _ _ => trivial).post

end Traced

end AgentWeb.Traces
