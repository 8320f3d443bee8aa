import Mathlib.Algebra.Order.Group.Defs
import Mathlib.Algebra.Order.Group.Unbundled.Basic
import Mathlib.Data.List.TakeWhile
import Mathlib.Order.WithBot

namespace AgentWeb.Windows

variable {K : Type*}

/-- A queue that has lost from its front only times that are gone. -/
def Holds (gone : K → Prop) (log queue : List K) : Prop :=
  ∃ old, log = old ++ queue ∧ ∀ x ∈ old, gone x

section Queues

variable {gone gone' : K → Prop} {log queue : List K}

theorem dropWhile_eq_filter [DecidablePred gone] {xs : List K}
    (hs : xs.Pairwise fun x y => gone y → gone x) :
    xs.dropWhile (gone ·) = xs.filter (¬ gone ·) := by
  induction xs with
  | nil => rfl
  | cons x xs ih =>
      obtain ⟨hx, hxs⟩ := List.pairwise_cons.mp hs
      by_cases hgone : gone x
      · rw [List.dropWhile_cons_of_pos (by simpa using hgone), ih hxs,
          List.filter_cons_of_neg (by simpa using hgone)]
      · have hall : ∀ y ∈ x :: xs, ¬ gone y := by
          intro y hy hgoney
          rcases List.mem_cons.mp hy with rfl | hy
          · exact hgone hgoney
          · exact hgone (hx y hy hgoney)
        rw [List.dropWhile_cons_of_neg (by simpa using hgone)]
        exact (List.filter_eq_self.mpr fun y hy => by simpa using hall y hy).symm

theorem Holds.filter [DecidablePred gone'] (h : Holds gone log queue) (hle : ∀ x, gone x → gone' x) :
    queue.filter (¬ gone' ·) = log.filter (¬ gone' ·) := by
  obtain ⟨old, rfl, hold⟩ := h
  have hnone : old.filter (¬ gone' ·) = [] := by
    rw [List.filter_eq_nil_iff]
    intro x hx
    simpa using hle x (hold x hx)
  rw [List.filter_append, hnone, List.nil_append]

theorem Holds.sublist (h : Holds gone log queue) : queue.Sublist log := by
  obtain ⟨old, rfl, -⟩ := h
  exact List.sublist_append_right old queue

theorem Holds.mono (h : Holds gone log queue) (hle : ∀ x, gone x → gone' x) :
    Holds gone' log queue := by
  obtain ⟨old, hlog, hold⟩ := h
  exact ⟨old, hlog, fun x hx => hle x (hold x hx)⟩

theorem Holds.dropWhile [DecidablePred gone] (h : Holds gone log queue) :
    Holds gone log (queue.dropWhile (gone ·)) := by
  obtain ⟨old, rfl, hold⟩ := h
  refine ⟨old ++ queue.takeWhile (gone ·), ?_, fun x hx => ?_⟩
  · rw [List.append_assoc, List.takeWhile_append_dropWhile]
  · rcases List.mem_append.mp hx with hx | hx
    · exact hold x hx
    · simpa using List.mem_takeWhile_imp hx

theorem Holds.nil (h : ∀ x ∈ log, gone x) : Holds gone log [] :=
  ⟨log, (List.append_nil log).symm, h⟩

theorem Holds.snoc {x : K} (h : Holds gone log queue) : Holds gone (log ++ [x]) (queue ++ [x]) := by
  obtain ⟨old, rfl, hold⟩ := h
  exact ⟨old, List.append_assoc .., hold⟩

end Queues

section Within

variable [LinearOrder K] [AddCommGroup K]

/-- The window of some width that ends at `t`: open below, closed above. -/
def Within (w : WithTop K) (t x : K) : Prop := x ≤ t ∧ ((t - x : K) : WithTop K) < w

instance (w : WithTop K) (t x : K) : Decidable (Within w t x) := inferInstanceAs (Decidable (_ ∧ _))

def inWindow (w : WithTop K) (t : K) (log : List K) : Nat := log.countP fun x => Within w t x

theorem inWindow_append (w : WithTop K) (t : K) (xs ys : List K) :
    inWindow w t (xs ++ ys) = inWindow w t xs + inWindow w t ys :=
  List.countP_append

theorem inWindow_le_length (w : WithTop K) (t : K) (xs : List K) : inWindow w t xs ≤ xs.length :=
  List.countP_le_length

variable [IsOrderedAddMonoid K]

theorem inWindow_le_countP {w : WithTop K} {t x : K} (hx : Within w t x) (old : List K) :
    inWindow w t old ≤ old.countP fun y => ((x - y : K) : WithTop K) < w := by
  refine List.countP_mono_left fun y _ hin => ?_
  have hstart : ((t - y : K) : WithTop K) < w := (of_decide_eq_true hin).2
  have hle : ((x - y : K) : WithTop K) ≤ (t - y : K) := WithTop.coe_le_coe.mpr (sub_le_sub_right hx.1 y)
  exact decide_eq_true (hle.trans_lt hstart)

/-- Where the queue has room even with the times it has lost too early, each window
of the log has room. -/
theorem inWindow_snoc_le {w : WithTop K} {x : K} {old queue : List K} {n : Nat}
    (hlog : ∀ t, inWindow w t (old ++ queue) ≤ n)
    (hroom : (old.countP fun y => ((x - y : K) : WithTop K) < w) + queue.length < n) (t : K) :
    inWindow w t (old ++ queue ++ [x]) ≤ n := by
  rw [inWindow_append]
  by_cases hx : Within w t x
  · have hold := inWindow_le_countP hx old
    have hqueue := inWindow_le_length w t queue
    have hone := inWindow_le_length w t [x]
    rw [List.length_singleton] at hone
    rw [inWindow_append]
    omega
  · have hnone : inWindow w t [x] = 0 := by simp [inWindow, hx]
    rw [hnone]
    exact hlog t

end Within

end AgentWeb.Windows
