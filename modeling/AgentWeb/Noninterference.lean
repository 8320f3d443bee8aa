import Mathlib.Data.List.Basic

namespace AgentWeb.Noninterference

variable {σ ρ ε ε' α β : Type}

/-- Programs that raise, and keep what they wrote before they raised. -/
abbrev Program (σ ε α : Type) := ExceptT ε (StateM σ) α

def exec (m : Program σ ε α) (s : σ) : Except ε α × σ := m.run.run s

def query (f : σ → α) : Program σ ε α := do return f (← get)

def write (f : σ → Option σ) (e : ε) : Program σ ε Unit := do
  match f (← get) with
  | some s => set s
  | none => throw e

def raiseAll : Except ε α → Program σ ε α
  | .ok a => return a
  | .error e => throw e

def transaction (restore : σ → σ → σ) (m : Program σ ε α) : Program σ ε (Except ε α) :=
  fun s => match exec m s with
    | (.ok a, t) => (.ok (.ok a), t)
    | (.error e, t) => (.ok (.error e), restore s t)

@[simp] theorem exec_pure (a : α) (s : σ) : exec (pure a : Program σ ε α) s = (.ok a, s) := rfl

@[simp] theorem exec_throw (e : ε) (s : σ) : exec (throw e : Program σ ε α) s = (.error e, s) := rfl

@[simp] theorem exec_query (f : σ → α) (s : σ) :
    exec (query f : Program σ ε α) s = (.ok (f s), s) := rfl

@[simp] theorem exec_modify (f : σ → σ) (s : σ) :
    exec (modify f : Program σ ε Unit) s = (.ok (), f s) := rfl

@[simp] theorem exec_raiseAll (x : Except ε α) (s : σ) :
    exec (raiseAll x : Program σ ε α) s = (x, s) := by
  cases x <;> rfl

theorem exec_write (f : σ → Option σ) (e : ε) (s : σ) :
    exec (write f e) s = match f s with
      | some t => (.ok (), t)
      | none => (.error e, s) := by
  change exec (match f s with | some t => set t | none => throw e : Program σ ε Unit) s = _
  cases f s <;> rfl

theorem exec_bind (m : Program σ ε α) (f : α → Program σ ε β) (s : σ) :
    exec (m >>= f) s = match exec m s with
      | (.ok a, t) => exec (f a) t
      | (.error e, t) => (.error e, t) := by
  change (ExceptT.bind m f).run.run s = _
  unfold ExceptT.bind
  change (ExceptT.bindCont f (exec m s).1).run (exec m s).2 = _
  rcases exec m s with ⟨r, t⟩
  cases r <;> rfl

theorem exec_bind_of_ok {m : Program σ ε α} {f : α → Program σ ε β} {s t : σ} {a : α}
    (h : exec m s = (.ok a, t)) : exec (m >>= f) s = exec (f a) t := by
  rw [exec_bind, h]

theorem exec_bind_of_error {m : Program σ ε α} {f : α → Program σ ε β} {s t : σ} {e : ε}
    (h : exec m s = (.error e, t)) : exec (m >>= f) s = (.error e, t) := by
  rw [exec_bind, h]

theorem exec_adapt (g : ε → ε') (m : Program σ ε α) (s : σ) :
    exec (ExceptT.adapt g m) s = ((exec m s).1.mapError g, (exec m s).2) := rfl

theorem exec_transaction (restore : σ → σ → σ) (m : Program σ ε α) (s : σ) :
    exec (transaction restore m) s = match exec m s with
      | (.ok a, t) => (.ok (.ok a), t)
      | (.error e, t) => (.ok (.error e), restore s t) := rfl

structure Boundary (σ ρ : Type) where
  view : σ → σ
  rest : σ → ρ

variable {b : Boundary σ ρ} {P P' : σ → Prop} {Q Q' : α → σ → Prop} {R : β → σ → Prop}

/-- From the states with `P`, the program does the same on the owned part alone, and leaves the
rest. What it returns meets `Q`. -/
structure Confined (b : Boundary σ ρ) (P : σ → Prop) (m : Program σ ε α) (Q : α → σ → Prop) :
    Prop where
  view : ∀ s, P s → exec m (b.view s) = ((exec m s).1, b.view (exec m s).2)
  rest : ∀ s, P s → b.rest (exec m s).2 = b.rest s
  post : ∀ s, P s → ∀ a t, exec m s = (.ok a, t) → Q a t

namespace Confined

theorem agree {m : Program σ ε α} (h : Confined b P m Q) {s t : σ} (hs : P s) (ht : P t)
    (hview : b.view s = b.view t) :
    (exec m s).1 = (exec m t).1 ∧ b.view (exec m s).2 = b.view (exec m t).2 := by
  have heq := (h.view s hs).symm.trans ((congrArg (exec m) hview).trans (h.view t ht))
  exact Prod.mk.inj heq

theorem consequence {m : Program σ ε α} (h : Confined b P m Q) (hpre : ∀ s, P' s → P s)
    (hpost : ∀ a s, Q a s → Q' a s) : Confined b P' m Q' where
  view s hs := h.view s (hpre s hs)
  rest s hs := h.rest s (hpre s hs)
  post s hs a t he := hpost a t (h.post s (hpre s hs) a t he)

/-- What the states with `P` have in common is at hand in the proof. -/
theorem of_fact {m : Program σ ε α} {φ : Prop} (h : ∀ s, P s → φ) (hm : φ → Confined b P m Q) :
    Confined b P m Q where
  view s hs := (hm (h s hs)).view s hs
  rest s hs := (hm (h s hs)).rest s hs
  post s hs := (hm (h s hs)).post s hs

theorem pure {a : α} (h : ∀ s, P s → Q a s) : Confined b P (pure a : Program σ ε α) Q where
  view _ _ := rfl
  rest _ _ := rfl
  post s hs _ _ he := by
    obtain ⟨rfl, rfl⟩ : a = _ ∧ s = _ := by simpa using he
    exact h s hs

theorem throw {e : ε} : Confined b P (throw e : Program σ ε α) Q where
  view _ _ := rfl
  rest _ _ := rfl
  post s _ a t he := by simp at he

theorem bind {m : Program σ ε α} {f : α → Program σ ε β} (hm : Confined b P m Q)
    (hf : ∀ a, Confined b (Q a) (f a) R) : Confined b P (m >>= f) R where
  view s hs := by
    rw [exec_bind, exec_bind, hm.view s hs]
    rcases he : exec m s with ⟨r, t⟩
    cases r with
    | error e => rfl
    | ok a => exact (hf a).view t (hm.post s hs a t he)
  rest s hs := by
    have hrest := hm.rest s hs
    rw [exec_bind]
    rcases he : exec m s with ⟨r, t⟩
    rw [he] at hrest
    cases r with
    | error e => exact hrest
    | ok a => exact ((hf a).rest t (hm.post s hs a t he)).trans hrest
  post s hs c u hu := by
    rw [exec_bind] at hu
    rcases he : exec m s with ⟨r, t⟩
    rw [he] at hu
    cases r with
    | error e => simp at hu
    | ok a => exact (hf a).post t (hm.post s hs a t he) c u hu

theorem query {f : σ → α} (h : ∀ s, P s → f (b.view s) = f s) (hpost : ∀ s, P s → Q (f s) s) :
    Confined b P (query f : Program σ ε α) Q where
  view s hs := by rw [exec_query, exec_query, h s hs]
  rest _ _ := rfl
  post s hs a t he := by
    obtain ⟨rfl, rfl⟩ : f s = a ∧ s = t := by simpa using he
    exact hpost s hs

theorem modify {f : σ → σ} (h : ∀ s, P s → f (b.view s) = b.view (f s))
    (hrest : ∀ s, P s → b.rest (f s) = b.rest s) {Q : Unit → σ → Prop}
    (hpost : ∀ s, P s → Q () (f s)) :
    Confined b P (modify f : Program σ ε Unit) Q where
  view s hs := by rw [exec_modify, exec_modify, h s hs]
  rest s hs := hrest s hs
  post s hs a t he := by
    obtain ⟨-, rfl⟩ : () = a ∧ f s = t := by simpa using he
    exact hpost s hs

theorem write {f : σ → Option σ} {e : ε} (h : ∀ s, P s → f (b.view s) = (f s).map b.view)
    (hrest : ∀ s, P s → ∀ t, f s = some t → b.rest t = b.rest s) {Q : Unit → σ → Prop}
    (hpost : ∀ s, P s → ∀ t, f s = some t → Q () t) :
    Confined b P (write f e) Q where
  view s hs := by
    rw [exec_write, exec_write, h s hs]
    cases f s <;> rfl
  rest s hs := by
    rw [exec_write]
    cases hf : f s with
    | none => rfl
    | some t => exact hrest s hs t hf
  post s hs a t he := by
    rw [exec_write] at he
    cases hf : f s with
    | none => simp [hf] at he
    | some u =>
        obtain ⟨-, rfl⟩ : () = a ∧ u = t := by simpa [hf] using he
        exact hpost s hs u hf

theorem raiseAll {x : Except ε α} (h : ∀ a, x = .ok a → ∀ s, P s → Q a s) :
    Confined b P (raiseAll x : Program σ ε α) Q where
  view s _ := by rw [exec_raiseAll, exec_raiseAll]
  rest s _ := by rw [exec_raiseAll]
  post s hs a t he := by
    obtain ⟨hx, rfl⟩ : x = .ok a ∧ s = t := by simpa using he
    exact h a hx s hs

theorem adapt {m : Program σ ε α} (g : ε → ε') (h : Confined b P m Q) :
    Confined b P (ExceptT.adapt g m) Q where
  view s hs := by rw [exec_adapt, exec_adapt, h.view s hs]
  rest s hs := h.rest s hs
  post s hs a t he := by
    rw [exec_adapt] at he
    refine h.post s hs a t ?_
    rcases hm : exec m s with ⟨r, u⟩
    rw [hm] at he
    cases r with
    | error e => simp [Except.mapError] at he
    | ok c => simpa [Except.mapError] using he

/-- Rolling back is confined where restoring the owned part restores nothing else. -/
theorem transaction {m : Program σ ε α} {restore : σ → σ → σ} (hm : Confined b P m Q)
    (hview : ∀ s t, restore (b.view s) (b.view t) = b.view (restore s t))
    (hrest : ∀ s t, b.rest (restore s t) = b.rest s) {Q' : Except ε α → σ → Prop}
    (hok : ∀ a s, Q a s → Q' (.ok a) s) (herror : ∀ e s t, P s → Q' (.error e) (restore s t)) :
    Confined b P (transaction restore m) Q' where
  view s hs := by
    rw [exec_transaction, exec_transaction, hm.view s hs]
    rcases exec m s with ⟨r, t⟩
    cases r with
    | error e => exact congrArg _ (hview s t)
    | ok a => rfl
  rest s hs := by
    have h := hm.rest s hs
    rw [exec_transaction]
    rcases he : exec m s with ⟨r, t⟩
    rw [he] at h
    cases r with
    | error e => exact hrest s t
    | ok a => exact h
  post s hs x u hu := by
    rw [exec_transaction] at hu
    rcases he : exec m s with ⟨r, t⟩
    rw [he] at hu
    cases r with
    | error e =>
        obtain ⟨rfl, rfl⟩ : Except.error e = x ∧ restore s t = u := by simpa using hu
        exact herror e s t hs
    | ok a =>
        obtain ⟨rfl, rfl⟩ : Except.ok a = x ∧ t = u := by simpa using hu
        exact hok a t (hm.post s hs a t he)

end Confined

end AgentWeb.Noninterference
