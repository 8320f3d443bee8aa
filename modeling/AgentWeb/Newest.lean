import Mathlib.Data.List.DropRight

namespace AgentWeb.Newest

variable {α : Type*}

theorem rtake_suffix (n : ℕ) (xs : List α) : xs.rtake n <:+ xs := List.drop_suffix _ _

@[simp] theorem length_rtake (n : ℕ) (xs : List α) : (xs.rtake n).length = min n xs.length := by
  rw [List.rtake, List.length_drop]
  omega

theorem rtake_of_length_le {n : ℕ} {xs : List α} (h : xs.length ≤ n) : xs.rtake n = xs := by
  rw [List.rtake, Nat.sub_eq_zero_of_le h, List.drop_zero]

theorem suffix_rtake {n : ℕ} {xs ys : List α} (hs : ys <:+ xs) (hn : ys.length ≤ n) :
    ys <:+ xs.rtake n :=
  List.suffix_of_suffix_length_le hs (rtake_suffix n xs)
    (by rw [length_rtake]; exact le_min hn hs.length_le)

theorem map_rtake {β : Type*} (f : α → β) (n : ℕ) (xs : List α) :
    (xs.rtake n).map f = (xs.map f).rtake n := by
  simp [List.rtake]

/-- The newest `n + 1` without the oldest of them are the newest `n`, as soon
as there are that many. -/
theorem tail_rtake_succ {n : ℕ} {xs : List α} (h : n < xs.length) :
    (xs.rtake (n + 1)).tail = xs.rtake n := by
  rw [List.rtake, List.rtake, List.tail_drop]
  congr 1
  omega

theorem rtake_concat_room {n : ℕ} {xs : List α} (h : xs.length < n) (x : α) :
    (xs ++ [x]).rtake n = xs.rtake n ++ [x] := by
  rw [rtake_of_length_le h.le, rtake_of_length_le]
  simpa using Nat.succ_le_of_lt h

theorem rtake_append_rtake (n : ℕ) (xs ys : List α) :
    (xs.rtake n ++ ys).rtake n = (xs ++ ys).rtake n := by
  simp only [List.rtake, List.drop_append, List.drop_drop, List.length_append, List.length_drop]
  congr 2 <;> omega

theorem drop_rtake_append (n : ℕ) (xs ys : List α) :
    ((xs ++ ys).rtake n).drop (xs.rtake n).length = ys.rtake (n - xs.length) := by
  simp only [List.rtake, List.drop_append, List.drop_drop, List.length_append, List.length_drop]
  rw [List.drop_eq_nil_of_le (by omega), List.nil_append]
  congr 1
  omega

theorem rdrop_append_rtake {m n : ℕ} (h : m ≤ n) (xs : List α) :
    (xs.rtake n).rdrop m ++ xs.rtake m = xs.rtake n := by
  have hlast : xs.rtake m = (xs.rtake n).rtake m := by
    rw [List.rtake, List.rtake.eq_def (xs.rtake n), List.rtake.eq_def xs n, List.drop_drop,
      List.length_drop]
    congr 1
    omega
  rw [hlast, List.rdrop, List.rtake.eq_def (xs.rtake n), List.take_append_drop]

theorem drop_zipIdx_of_suffix {xs : List α} {a : α} {n : ℕ} {ys : List (α × ℕ)}
    (h : (a, n) :: ys <:+ xs.zipIdx) : n < xs.length ∧ xs.zipIdx.drop (n + 1) = ys := by
  obtain ⟨zs, hzs⟩ := h
  have hget : xs.zipIdx[zs.length]? = some (a, n) := by
    rw [← hzs]
    simp
  rw [List.getElem?_zipIdx, Option.map_eq_some_iff] at hget
  obtain ⟨b, hb, heq⟩ := hget
  obtain ⟨-, rfl⟩ : b = a ∧ zs.length = n := by simpa using heq
  refine ⟨(List.getElem?_eq_some_iff.mp hb).1, ?_⟩
  rw [← hzs, List.drop_append]
  simp

end AgentWeb.Newest
