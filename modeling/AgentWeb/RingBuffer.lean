import AgentWeb.Newest

namespace AgentWeb.RingBuffer

open Newest

structure Ring (α : Type*) (room : ℕ) where
  toList : List α
  length_le : toList.length ≤ room

namespace Ring

variable {α : Type*} {room : ℕ}

def empty : Ring α room := ⟨[], Nat.zero_le _⟩

def push (r : Ring α room) (a : α) : Ring α room :=
  ⟨(r.toList ++ [a]).rtake room, by rw [length_rtake]; exact Nat.min_le_left _ _⟩

def pushAll (r : Ring α room) (as : List α) : Ring α room := as.foldl push r

theorem toList_eq_rtake (r : Ring α room) : r.toList = r.toList.rtake room :=
  (rtake_of_length_le r.length_le).symm

@[simp] theorem toList_pushAll (r : Ring α room) (as : List α) :
    (r.pushAll as).toList = (r.toList ++ as).rtake room := by
  induction as generalizing r with
  | nil =>
      rw [List.append_nil]
      exact r.toList_eq_rtake
  | cons a as ih =>
      rw [pushAll, List.foldl_cons, ← pushAll, ih, push, rtake_append_rtake, List.append_assoc]
      rfl

theorem toList_pushAll_of_eq {r : Ring α room} {seen : List α} (h : r.toList = seen.rtake room)
    (as : List α) : (r.pushAll as).toList = (seen ++ as).rtake room := by
  rw [toList_pushAll, h, rtake_append_rtake]

/-- Reading from a position that was taken before: the newest elements are there
only as far as the room was not taken. -/
theorem drop_toList_pushAll {r : Ring α room} {seen : List α} (h : r.toList = seen.rtake room)
    (as : List α) :
    (r.pushAll as).toList.drop r.toList.length = as.rtake (room - seen.length) := by
  rw [toList_pushAll_of_eq h, h, drop_rtake_append]

end Ring

end AgentWeb.RingBuffer
