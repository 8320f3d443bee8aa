import AgentWeb.Transitions

namespace AgentWeb.Interleaving

/-- Threads over one shared state. A thread is the point it has reached. -/
structure Pool (γ τ : Type*) where
  shared : γ
  threads : List τ

variable {γ τ ρ : Type*}

/-- Thread `k` takes one step. -/
def Pool.move (advance : γ → ρ → τ → Option (γ × τ)) (s : Pool γ τ) (k : Nat) (r : ρ) :
    Option (Pool γ τ) :=
  (s.threads[k]?).bind fun th =>
    (advance s.shared r th).map fun m => ⟨m.1, s.threads.set k m.2⟩

theorem move_eq_some {advance : γ → ρ → τ → Option (γ × τ)} {s s' : Pool γ τ} {k : Nat} {r : ρ} :
    s.move advance k r = some s' ↔ ∃ th g th', s.threads[k]? = some th ∧
      advance s.shared r th = some (g, th') ∧ s' = ⟨g, s.threads.set k th'⟩ := by
  simp only [Pool.move, Option.bind_eq_some_iff, Option.map_eq_some_iff]
  constructor
  · rintro ⟨th, hth, ⟨g, th'⟩, hadv, rfl⟩
    exact ⟨th, g, th', hth, hadv, rfl⟩
  · rintro ⟨th, g, th', hth, hadv, rfl⟩
    exact ⟨th, hth, (g, th'), hadv, rfl⟩

theorem of_none {α : Type*} {o : Option α} {P : α → Prop} (h : o = none) (x : α) (hx : o = some x) :
    P x := by
  rw [h] at hx
  cases hx

theorem getElem?_set_cases {ts : List τ} {k i : Nat} {a b : τ} (h : (ts.set k a)[i]? = some b) :
    i = k ∧ b = a ∨ i ≠ k ∧ ts[i]? = some b := by
  by_cases hik : i = k
  · subst hik
    obtain ⟨hi, hb⟩ := List.getElem?_eq_some_iff.mp h
    rw [List.getElem_set_self] at hb
    exact .inl ⟨rfl, hb.symm⟩
  · rw [List.getElem?_set_ne (Ne.symm hik)] at h
    exact .inr ⟨hik, h⟩

theorem mem_append_singleton {α : Type*} {l : List α} {a b : α} :
    b ∈ l ++ [a] ↔ b ∈ l ∨ b = a := by
  rw [List.mem_append, List.mem_singleton]

theorem getElem?_append_cases {ts : List τ} {i : Nat} {a b : τ} (h : (ts ++ [a])[i]? = some b) :
    i = ts.length ∧ b = a ∨ ts[i]? = some b := by
  rw [List.getElem?_append] at h
  split at h
  next => exact .inr h
  next hi =>
    rw [List.getElem?_singleton] at h
    split at h
    next hz => exact .inl ⟨by omega, (Option.some.inj h).symm⟩
    next => simp at h

theorem exists_set {P : τ → Prop} {ts : List τ} {k : Nat} {a b : τ} (hk : ts[k]? = some a)
    (h : ∃ th ∈ ts, P th) (hab : P a → P b) : ∃ th ∈ ts.set k b, P th := by
  obtain ⟨th, hmem, hP⟩ := h
  obtain ⟨i, hi⟩ := List.getElem?_of_mem hmem
  by_cases hik : i = k
  · subst hik
    cases hk.symm.trans hi
    have hlt := (List.getElem?_eq_some_iff.mp hk).choose
    exact ⟨b, List.mem_of_getElem? (List.getElem?_set_self hlt), hab hP⟩
  · exact ⟨th, List.mem_of_getElem? ((List.getElem?_set_ne (Ne.symm hik)).trans hi), hP⟩

theorem forall_of_mem_set {α : Type*} {f : α → τ} {P : α → Prop} {ts : List τ} {k : Nat} {b : τ}
    (h : ∀ x, f x ∈ ts → P x) (hb : ∀ x, b = f x → P x) : ∀ x, f x ∈ ts.set k b → P x := by
  intro x hmem
  obtain hold | hnew := List.mem_or_eq_of_mem_set hmem
  · exact h x hold
  · exact hb x hnew.symm

theorem mem_set_self {ts : List τ} {k : Nat} {a : τ} (hk : ts[k]? = some a) (b : τ) :
    b ∈ ts.set k b :=
  List.mem_of_getElem? (List.getElem?_set_self (List.getElem?_eq_some_iff.mp hk).choose)

theorem countP_set_add {ts : List τ} {k : Nat} {a : τ} (hk : ts[k]? = some a) (b : τ) (p : τ → Bool) :
    (ts.set k b).countP p + (p a).toNat = ts.countP p + (p b).toNat := by
  obtain ⟨hlt, ha⟩ := List.getElem?_eq_some_iff.mp hk
  have hpos : p a = true → 0 < ts.countP p := fun h =>
    List.countP_pos_iff.mpr ⟨a, List.mem_of_getElem? hk, h⟩
  rw [List.countP_set hlt, ha]
  cases ha : p a <;> cases hb : p b <;> simp_all

/-- An assertion of the shared state, one of each thread, and one of each two. -/
structure Outline (γ τ : Type*) where
  whole : γ → Prop
  each : γ → τ → Prop
  two : τ → τ → Prop
  symm : ∀ a b, two a b → two b a

structure Meets (o : Outline γ τ) (s : Pool γ τ) : Prop where
  whole : o.whole s.shared
  each : ∀ (i : Nat) (th : τ), s.threads[i]? = some th → o.each s.shared th
  two : ∀ (i j : Nat) (a b : τ), i ≠ j → s.threads[i]? = some a → s.threads[j]? = some b →
    o.two a b

theorem Meets.move {o : Outline γ τ} {s : Pool γ τ} {k : Nat} {th th' : τ} {g : γ} (h : Meets o s)
    (hk : s.threads[k]? = some th) (hwhole : o.whole g) (heach : o.each g th')
    (hothers : ∀ (j : Nat) (a : τ), j ≠ k → s.threads[j]? = some a → o.each s.shared a → o.two th a →
      o.each g a ∧ o.two th' a) :
    Meets o ⟨g, s.threads.set k th'⟩ where
  whole := hwhole
  each i a hi := by
    rcases getElem?_set_cases hi with ⟨-, rfl⟩ | ⟨hne, hi⟩
    · exact heach
    · exact (hothers i a hne hi (h.each i a hi) (h.two k i th a (Ne.symm hne) hk hi)).1
  two i j a b hij hi hj := by
    have hother : ∀ (m : Nat) (c : τ), m ≠ k → s.threads[m]? = some c → o.two th' c := fun m c hne hm =>
      (hothers m c hne hm (h.each m c hm) (h.two k m th c (Ne.symm hne) hk hm)).2
    rcases getElem?_set_cases hi with ⟨rfl, rfl⟩ | ⟨hik, hi'⟩
    · rcases getElem?_set_cases hj with ⟨rfl, -⟩ | ⟨hjk, hj'⟩
      · exact absurd rfl hij
      · exact hother j b hjk hj'
    · rcases getElem?_set_cases hj with ⟨rfl, rfl⟩ | ⟨hjk, hj'⟩
      · exact o.symm _ _ (hother i a hik hi')
      · exact h.two i j a b hij hi' hj'

theorem Meets.arrive {o : Outline γ τ} {s : Pool γ τ} {th : τ} {g : γ} (h : Meets o s)
    (hwhole : o.whole g) (heach : o.each g th)
    (hothers : ∀ a ∈ s.threads, o.each s.shared a → o.each g a ∧ o.two th a) :
    Meets o ⟨g, s.threads ++ [th]⟩ where
  whole := hwhole
  each i a hi := by
    rcases getElem?_append_cases hi with ⟨-, rfl⟩ | hi
    · exact heach
    · exact (hothers a (List.mem_of_getElem? hi) (h.each i a hi)).1
  two i j a b hij hi hj := by
    have hother : ∀ (m : Nat) (c : τ), s.threads[m]? = some c → o.two th c := fun m c hm =>
      (hothers c (List.mem_of_getElem? hm) (h.each m c hm)).2
    rcases getElem?_append_cases hi with ⟨rfl, rfl⟩ | hi'
    · rcases getElem?_append_cases hj with ⟨rfl, -⟩ | hj'
      · exact absurd rfl hij
      · exact hother j b hj'
    · rcases getElem?_append_cases hj with ⟨rfl, rfl⟩ | hj'
      · exact o.symm _ _ (hother i a hi')
      · exact h.two i j a b hij hi' hj'

end AgentWeb.Interleaving
