import Mathlib.Data.List.Basic

namespace AgentWeb.Loops

variable {σ τ ο : Type*}

inductive Pass (σ ο : Type*)
  | again (s : σ) (out : List ο)
  | stop (s : σ) (out : List ο)

namespace Pass

def state : Pass σ ο → σ
  | again s _ | stop s _ => s

def out : Pass σ ο → List ο
  | again _ out | stop _ out => out

end Pass

def Falls (body : σ → Pass σ ο) (rank : σ → Nat) : Prop :=
  ∀ s t out, body s = .again t out → rank t < rank s

inductive Halts (body : σ → Pass σ ο) : σ → Prop
  | stop {s t : σ} {out : List ο} (h : body s = .stop t out) : Halts body s
  | again {s t : σ} {out : List ο} (h : body s = .again t out) (rest : Halts body t) : Halts body s

def iterate (body : σ → Pass σ ο) : Nat → σ → σ × List ο
  | 0, s => (s, [])
  | fuel + 1, s =>
      match body s with
      | .stop t out => (t, out)
      | .again t out =>
          let r := iterate body fuel t
          (r.1, out ++ r.2)

def loop (body : σ → Pass σ ο) (rank : σ → Nat) (s : σ) : σ × List ο :=
  iterate body (rank s + 1) s

section Falls

variable {body : σ → Pass σ ο} {rank : σ → Nat}

theorem iterate_eq_loop (hf : Falls body rank) {n : Nat} {s : σ} (h : rank s < n) :
    iterate body n s = loop body rank s := by
  rw [loop]
  induction n using Nat.strongRecOn generalizing s with
  | ind n ih =>
      obtain ⟨n, rfl⟩ : ∃ k, n = k + 1 := ⟨n - 1, by omega⟩
      rw [iterate, iterate]
      cases hb : body s with
      | stop t out => rfl
      | again t out =>
          have hlt := hf s t out hb
          have hn := ih n (Nat.lt_succ_self n) (s := t) (by omega)
          rcases Nat.lt_or_ge (rank s) n with hs | hs
          · have hr := ih (rank s) (by omega) (s := t) hlt
            simp only [hn, hr]
          · obtain rfl : n = rank s := by omega
            rfl

theorem loop_stop {s t : σ} {out : List ο} (h : body s = .stop t out) :
    loop body rank s = (t, out) := by
  rw [loop, iterate, h]

theorem loop_again (hf : Falls body rank) {s t : σ} {out : List ο} (h : body s = .again t out) :
    loop body rank s = ((loop body rank t).1, out ++ (loop body rank t).2) := by
  have hlt := hf s t out h
  rw [loop, iterate, h]
  simp only [iterate_eq_loop hf hlt]

theorem Falls.induction (hf : Falls body rank) {motive : σ → Prop}
    (stop : ∀ s t out, body s = .stop t out → motive s)
    (again : ∀ s t out, body s = .again t out → motive t → motive s) (s : σ) : motive s := by
  induction hn : rank s using Nat.strongRecOn generalizing s with
  | ind n ih =>
      cases hb : body s with
      | stop t out => exact stop s t out hb
      | again t out => exact again s t out hb (ih (rank t) (hn ▸ hf s t out hb) t rfl)

theorem Falls.halts (hf : Falls body rank) (s : σ) : Halts body s := by
  induction s using hf.induction with
  | stop s t out hb => exact .stop hb
  | again s t out hb ih => exact .again hb ih

theorem loop_rank_le (hf : Falls body rank)
    (h : ∀ s, rank (body s).state + (body s).out.length ≤ rank s) (s : σ) : rank (loop body rank s).1 + (loop body rank s).2.length ≤ rank s := by
  induction s using hf.induction with
  | stop s t out hb =>
      have hle := h s
      rw [hb] at hle
      rw [loop_stop hb]
      exact hle
  | again s t out hb ih =>
      have hle := h s
      simp only [hb, Pass.state, Pass.out] at hle
      simp only [loop_again hf hb, List.length_append]
      omega

theorem loop_invariant (hf : Falls body rank) {I : σ → Prop}
    (h : ∀ s, I s → I (body s).state) {s : σ} (hs : I s) : I (loop body rank s).1 := by
  induction s using hf.induction with
  | stop s t out hb =>
      have ht := h s hs
      rw [hb] at ht
      rw [loop_stop hb]
      exact ht
  | again s t out hb ih =>
      have ht := h s hs
      rw [hb] at ht
      rw [loop_again hf hb]
      exact ih ht

inductive Pass.Alike (R : σ → τ → Prop) : Pass σ ο → Pass τ ο → Prop
  | again {s : σ} {t : τ} (out : List ο) (h : R s t) : Alike R (.again s out) (.again t out)
  | stop {s : σ} {t : τ} (out : List ο) (h : R s t) : Alike R (.stop s out) (.stop t out)

theorem loop_alike {body' : τ → Pass τ ο} {rank' : τ → Nat} (hf : Falls body rank)
    (hf' : Falls body' rank') {R : σ → τ → Prop}
    (h : ∀ s t, R s t → Pass.Alike R (body s) (body' t)) {s : σ} {t : τ} (hst : R s t) :
    R (loop body rank s).1 (loop body' rank' t).1 ∧
      (loop body rank s).2 = (loop body' rank' t).2 := by
  induction s using hf.induction generalizing t with
  | stop s s' out hb =>
      have hp := h s t hst
      rw [hb] at hp
      cases hb' : body' t with
      | again t' out' => rw [hb'] at hp; cases hp
      | stop t' out' =>
          rw [hb'] at hp
          cases hp with
          | stop out h =>
              rw [loop_stop hb, loop_stop hb']
              exact ⟨h, rfl⟩
  | again s s' out hb ih =>
      have hp := h s t hst
      rw [hb] at hp
      cases hb' : body' t with
      | stop t' out' => rw [hb'] at hp; cases hp
      | again t' out' =>
          rw [hb'] at hp
          cases hp with
          | again out h =>
              obtain ⟨hr, hout⟩ := ih h
              rw [loop_again hf hb, loop_again hf' hb', hout]
              exact ⟨hr, rfl⟩

end Falls

end AgentWeb.Loops
