import Mathlib.Data.List.Induction

namespace AgentWeb.Transducers

variable {σ τ ι ω : Type*}

def replies (step : σ → ι → ω × σ) : σ → List ι → List ω
  | _, [] => []
  | s, x :: xs => (step s x).1 :: replies step (step s x).2 xs

def after (step : σ → ι → ω × σ) (s : σ) (xs : List ι) : σ := xs.foldl (fun s x => (step s x).2) s

variable {step : σ → ι → ω × σ}

theorem after_snoc (s : σ) (xs : List ι) (x : ι) :
    after step s (xs ++ [x]) = (step (after step s xs) x).2 := by
  rw [after, List.foldl_append]
  rfl

theorem replies_snoc (s : σ) (xs : List ι) (x : ι) :
    replies step s (xs ++ [x]) = replies step s xs ++ [(step (after step s xs) x).1] := by
  induction xs generalizing s with
  | nil => rfl
  | cons y xs ih => exact congrArg ((step s y).1 :: ·) (ih (step s y).2)

@[simp] theorem length_replies (s : σ) (xs : List ι) : (replies step s xs).length = xs.length := by
  induction xs generalizing s with
  | nil => rfl
  | cons y xs ih => exact congrArg Nat.succ (ih (step s y).2)

theorem getElem?_replies (s : σ) (xs : List ι) (i : Nat) :
    (replies step s xs)[i]? = xs[i]?.map fun x => (step (after step s (xs.take i)) x).1 := by
  induction xs generalizing s i with
  | nil => rfl
  | cons y xs ih =>
      cases i with
      | zero => rfl
      | succ i => exact ih (step s y).2 i

theorem take_replies (s : σ) (xs : List ι) (i : Nat) :
    (replies step s xs).take i = replies step s (xs.take i) := by
  induction xs generalizing s i with
  | nil => simp [replies]
  | cons y xs ih =>
      cases i with
      | zero => rfl
      | succ i => exact congrArg ((step s y).1 :: ·) (ih (step s y).2 i)

/-- Two machines that stay related after each input answer alike, up to how the
second one's answers are read. `P` is what is known of the inputs so far. -/
theorem simulation {ω' : Type*} {step' : τ → ι → ω' × τ} (read : ω' → ω)
    {P : List ι → Prop} {R : List ι → σ → τ → Prop} (hP : ∀ xs x, P (xs ++ [x]) → P xs)
    (hstep : ∀ xs x s t, P (xs ++ [x]) → R xs s t →
      (step s x).1 = read (step' t x).1 ∧ R (xs ++ [x]) (step s x).2 (step' t x).2)
    {s : σ} {t : τ} (h : R [] s t) {xs : List ι} (hxs : P xs) :
    replies step s xs = (replies step' t xs).map read ∧ R xs (after step s xs) (after step' t xs) := by
  induction xs using List.reverseRecOn with
  | nil => exact ⟨rfl, h⟩
  | append_singleton xs x ih =>
      obtain ⟨hreplies, hR⟩ := ih (hP xs x hxs)
      obtain ⟨hreply, hR'⟩ := hstep xs x _ _ hxs hR
      rw [replies_snoc, replies_snoc, after_snoc, after_snoc, hreplies, hreply, List.map_append]
      exact ⟨rfl, hR'⟩

end AgentWeb.Transducers
