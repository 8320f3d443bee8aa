import AgentWeb.Newest
import AgentWeb.Transitions

namespace AgentWeb.Offer

open Transitions Newest

variable {α : Type}

/-- A `queue.Queue`, oldest event first. A `maxsize` of zero is no bound. -/
def full (maxsize : Nat) (items : List α) : Bool :=
  decide (0 < maxsize) && decide (maxsize ≤ items.length)

def putNowait (maxsize : Nat) (items : List α) (event : α) : Option (List α) :=
  if full maxsize items then none else some (items ++ [event])

def getNowait : List α → Option (α × List α)
  | [] => none
  | event :: items => some (event, items)

/-- `_offer`, when nobody else touches the queue meanwhile. An empty queue is
never full, so the loop ends. -/
def offer (maxsize : Nat) (force : Bool) (event : α) : List α → List α × Bool
  | [] => ([event], true)
  | oldest :: items =>
      if full maxsize (oldest :: items) then
        if force then offer maxsize force event items else (items, false)
      else (oldest :: items ++ [event], true)

/-- Where the thread that offers stands: before `put_nowait`, or before the
`get_nowait` that makes room. -/
inductive Phase (α : Type)
  | idle
  | putting (event : α) (force : Bool)
  | dropping (event : α) (force : Bool)

/-- A queue with its producer and its consumer. Offered events are numbered,
and what was offered before the newest consumed one is no longer awaited. -/
structure Feed (α : Type) where
  items : List (α × Nat)
  phase : Phase α
  offered : List α
  consumed : Nat

def Feed.empty : Feed α := ⟨[], .idle, [], 0⟩

inductive Act (α : Type)
  | offer (event : α) (force : Bool)
  | advance
  | get

/-- One call on the queue. The consumer may step in between any two calls of
`_offer`. -/
def step (maxsize : Nat) (s : Feed α) : Act α → Option (Feed α)
  | .offer event force => match s.phase with
    | .idle => some { s with phase := .putting event force }
    | _ => none
  | .advance => match s.phase with
    | .idle => none
    | .putting event force => match putNowait maxsize s.items (event, s.offered.length) with
      | some items => some
          { s with items := items, phase := .idle, offered := s.offered ++ [event] }
      | none => some { s with phase := .dropping event force }
    | .dropping event force => match getNowait s.items with
      | none => some { s with phase := .putting event force }
      -- without force the event is given up together with the oldest one
      | some (_, items) =>
          if force then some { s with items := items, phase := .putting event force }
          else some { s with items := items, phase := .idle, offered := s.offered ++ [event] }
  | .get => match getNowait s.items with
    | none => none
    | some (item, items) => some { s with items := items, consumed := item.2 + 1 }

def content (s : Feed α) : List α := s.items.map Prod.fst

def pending (s : Feed α) : List α := s.offered.drop s.consumed

/-- The queue holds the newest events that fit. An offer that has made room
counts with the event it is about to put. -/
def HoldsNewest (maxsize : Nat) (s : Feed α) : Prop :=
  content s = (pending s).rtake maxsize ∨
    ∃ event force, s.phase = .putting event force ∧
      content s ++ [event] = (pending s ++ [event]).rtake maxsize

/-- Nothing is dropped, or the oldest of a full queue for a forced event. -/
def DropsForced (maxsize : Nat) (s : Feed α) : Act α → Prop
  | .advance => match s.phase with
    | .dropping _ force => s.items = [] ∨ (force = true ∧ full maxsize s.items = true)
    | _ => True
  | _ => True

theorem full_iff {maxsize : Nat} (hB : 0 < maxsize) (items : List α) :
    full maxsize items = true ↔ maxsize ≤ items.length := by
  simp [full, hB]

@[simp] theorem full_nil (maxsize : Nat) : full maxsize ([] : List α) = false := by
  simp [full, Nat.pos_iff_ne_zero]

theorem putNowait_eq_some {maxsize : Nat} {items items' : List α} {event : α} :
    putNowait maxsize items event = some items' ↔
      full maxsize items = false ∧ items' = items ++ [event] := by
  rw [putNowait]
  split
  next h => simp [h]
  next h => simp [h, eq_comm]

theorem putNowait_eq_none {maxsize : Nat} {items : List α} {event : α} :
    putNowait maxsize items event = none ↔ full maxsize items = true := by
  simp [putNowait]

theorem getNowait_eq_some {items rest : List α} {event : α} :
    getNowait items = some (event, rest) ↔ items = event :: rest := by
  cases items <;> simp [getNowait]

/-- Undisturbed, the calls of `_offer` do what `offer` says. -/
theorem offer_run (maxsize : Nat) (force : Bool) (event : α) (items : List (α × Nat))
    (offered : List α) (consumed : Nat) :
    ∃ acts, run (step maxsize) ⟨items, .putting event force, offered, consumed⟩ acts =
      some ⟨(offer maxsize force (event, offered.length) items).1, .idle, offered ++ [event],
        consumed⟩ := by
  induction items with
  | nil => exact ⟨[.advance], by simp [run_cons, step, putNowait, offer]⟩
  | cons oldest items ih =>
      by_cases hfull : full maxsize (oldest :: items)
      · cases force with
        | false =>
            refine ⟨[.advance, .advance], ?_⟩
            simp [run_cons, step, putNowait, getNowait, hfull, offer]
        | true =>
            obtain ⟨acts, hacts⟩ := ih
            refine ⟨.advance :: .advance :: acts, ?_⟩
            simpa [run_cons, step, putNowait, getNowait, hfull, offer] using hacts
      · refine ⟨[.advance], ?_⟩
        simp [run_cons, step, putNowait, hfull, offer]

theorem offer_sublist (maxsize : Nat) (force : Bool) (event : α) (items : List α) :
    (offer maxsize force event items).1.Sublist (items ++ [event]) := by
  induction items with
  | nil => exact List.Sublist.refl _
  | cons oldest items ih =>
      rw [offer]
      split
      · cases force with
        | true => exact ih.cons oldest
        | false => exact (List.sublist_append_left items [event]).cons oldest
      · exact List.Sublist.refl _

theorem offer_not_full {maxsize : Nat} {items : List α} (h : full maxsize items = false)
    (force : Bool) (event : α) : offer maxsize force event items = (items ++ [event], true) := by
  cases items with
  | nil => rfl
  | cons oldest items => rw [offer, if_neg (by simp [h])]

@[simp] theorem full_unbounded (items : List α) : full 0 items = false := rfl

theorem mem_offer_forced (maxsize : Nat) (event : α) (items : List α) :
    event ∈ (offer maxsize true event items).1 := by
  induction items with
  | nil => simp [offer]
  | cons oldest items ih =>
      rw [offer]
      split
      · exact ih
      · simp

theorem offer_unforced (maxsize : Nat) (event : α) (items : List α) :
    (offer maxsize false event items).1 =
      if full maxsize items then items.tail else items ++ [event] := by
  cases items with
  | nil => simp [offer]
  | cons oldest items =>
      rw [offer]
      split <;> rfl

def awaited (s : Feed α) : List (α × Nat) := s.offered.zipIdx.drop s.consumed

def Window (maxsize : Nat) (s : Feed α) : Prop :=
  s.consumed ≤ s.offered.length ∧
    (s.items = (awaited s).rtake maxsize ∨
      (∃ event force, s.phase = .putting event force) ∧ s.items = (awaited s).rtake (maxsize - 1))

theorem map_awaited (s : Feed α) : (awaited s).map Prod.fst = pending s := by
  simp [awaited, pending, List.map_drop, List.zipIdx_map_fst]

theorem length_awaited (s : Feed α) : (awaited s).length = (pending s).length := by
  rw [← map_awaited, List.length_map]

theorem awaited_put {s : Feed α} (hs : s.consumed ≤ s.offered.length) (items : List (α × Nat))
    (phase : Phase α) (event : α) :
    awaited ⟨items, phase, s.offered ++ [event], s.consumed⟩ =
      awaited s ++ [(event, s.offered.length)] := by
  rw [awaited, List.zipIdx_append, List.drop_append_of_le_length (by simpa using hs)]
  simp [awaited]

theorem window_holdsNewest {maxsize : Nat} (hB : 0 < maxsize) {s : Feed α}
    (hs : Window maxsize s) : HoldsNewest maxsize s := by
  obtain ⟨-, h | ⟨⟨event, force, hp⟩, h⟩⟩ := hs
  · left
    rw [content, h, map_rtake, map_awaited]
  · obtain ⟨n, rfl⟩ := Nat.exists_eq_succ_of_ne_zero hB.ne'
    refine .inr ⟨event, force, hp, ?_⟩
    rw [List.rtake_concat_succ, content, h, map_rtake, map_awaited]
    rfl

/-- Between two offers the queue is the longest suffix of the pending events
that fits. -/
theorem longest_of_holdsNewest {maxsize : Nat} {s : Feed α} (h : HoldsNewest maxsize s)
    (hp : ∀ event force, s.phase ≠ .putting event force) :
    content s <:+ pending s ∧ (content s).length ≤ maxsize ∧
      ∀ ys, ys <:+ pending s → ys.length ≤ maxsize → ys <:+ content s := by
  have heq : content s = (pending s).rtake maxsize := by
    rcases h with h | ⟨event, force, hput, -⟩
    · exact h
    · exact absurd hput (hp event force)
  rw [heq, length_rtake]
  exact ⟨rtake_suffix _ _, Nat.min_le_left _ _, fun ys hs hlen => suffix_rtake hs hlen⟩

theorem window_get {n : Nat} {s : Feed α} {event : α} {i : Nat} {items : List (α × Nat)}
    (hs : s.items = (awaited s).rtake n) (hi : s.items = (event, i) :: items) :
    i < s.offered.length ∧ items = (s.offered.zipIdx.drop (i + 1)).rtake n := by
  have hsuf : (event, i) :: items <:+ s.offered.zipIdx := by
    rw [← hi, hs]
    exact (rtake_suffix n _).trans (List.drop_suffix _ _)
  obtain ⟨hlt, hdrop⟩ := drop_zipIdx_of_suffix hsuf
  refine ⟨hlt, ?_⟩
  rw [hdrop, rtake_of_length_le]
  have hlen := congrArg List.length (hi.symm.trans hs)
  rw [length_rtake, List.length_cons] at hlen
  omega

theorem Window.whole {maxsize : Nat} {s : Feed α} (hs : Window maxsize s)
    (hp : ∀ event force, s.phase ≠ .putting event force) : s.items = (awaited s).rtake maxsize := by
  obtain ⟨-, h | ⟨⟨event, force, hput⟩, -⟩⟩ := hs
  · exact h
  · exact absurd hput (hp event force)

theorem Window.put {maxsize : Nat} {s : Feed α} (hs : Window maxsize s)
    (hroom : s.items.length < maxsize) (event : α) :
    Window maxsize
      ⟨s.items ++ [(event, s.offered.length)], .idle, s.offered ++ [event], s.consumed⟩ := by
  obtain ⟨hc, hw⟩ := hs
  constructor
  · rw [List.length_append]
    exact Nat.le_add_right_of_le hc
  · left
    rw [awaited_put hc]
    rcases hw with h | ⟨-, h⟩
    · have hlen : (awaited s).length < maxsize := by
        rw [h, length_rtake] at hroom
        omega
      rw [rtake_concat_room hlen, ← h]
    · obtain ⟨n, rfl⟩ := Nat.exists_eq_succ_of_ne_zero (Nat.ne_zero_of_lt hroom)
      rw [List.rtake_concat_succ, h]
      rfl

theorem Window.drop {maxsize : Nat} (hB : 0 < maxsize) {s : Feed α} (hs : Window maxsize s)
    (hw : s.items = (awaited s).rtake maxsize) (hfull : maxsize ≤ s.items.length) {item : α × Nat}
    {items : List (α × Nat)} (hi : s.items = item :: items) (event : α) (force : Bool) :
    Window maxsize { s with items := items, phase := .putting event force } := by
  refine ⟨hs.1, .inr ⟨⟨event, force, rfl⟩, ?_⟩⟩
  rw [hw, length_rtake] at hfull
  obtain ⟨n, rfl⟩ := Nat.exists_eq_succ_of_ne_zero hB.ne'
  have htail := congrArg List.tail (hi.symm.trans hw)
  rw [List.tail_cons, Nat.succ_eq_add_one, tail_rtake_succ (by omega)] at htail
  exact htail

theorem Window.get {maxsize : Nat} {s : Feed α} (hs : Window maxsize s) {item : α × Nat}
    {items : List (α × Nat)} (hi : s.items = item :: items) :
    Window maxsize { s with items := items, consumed := item.2 + 1 } := by
  obtain ⟨-, h | ⟨hp, h⟩⟩ := hs
  · obtain ⟨hlt, hitems⟩ := window_get h hi
    exact ⟨hlt, .inl hitems⟩
  · obtain ⟨hlt, hitems⟩ := window_get h hi
    exact ⟨hlt, .inr ⟨hp, hitems⟩⟩

theorem step_window {maxsize : Nat} (hB : 0 < maxsize) (s : Feed α) (a : Act α) (t : Feed α)
    (hs : Window maxsize s) (hg : DropsForced maxsize s a) (ht : step maxsize s a = some t) :
    Window maxsize t := by
  cases a with
  | offer event force =>
      simp only [step] at ht
      split at ht
      next hp =>
        cases ht
        exact ⟨hs.1, .inl (hs.whole (by simp [hp]))⟩
      next => simp at ht
  | get =>
      simp only [step] at ht
      split at ht
      next => simp at ht
      next item items hget =>
        cases ht
        exact hs.get (getNowait_eq_some.mp hget)
  | advance =>
      simp only [step] at ht
      split at ht
      next => simp at ht
      next event force hp =>
        split at ht
        next items hput =>
          cases ht
          obtain ⟨hfull, rfl⟩ := putNowait_eq_some.mp hput
          apply hs.put
          by_contra hlt
          simp [(full_iff hB s.items).mpr (not_lt.mp hlt)] at hfull
        next hput =>
          cases ht
          refine ⟨hs.1, .inl ?_⟩
          obtain ⟨-, h | ⟨-, h⟩⟩ := hs
          · exact h
          · -- after a drop there is room, so a failed put is the first try
            have hfull := putNowait_eq_none.mp hput
            rw [full_iff hB, h, length_rtake] at hfull
            omega
      next event force hp =>
        have hw := hs.whole (by simp [hp])
        simp only [DropsForced, hp] at hg
        split at ht
        next =>
          cases ht
          exact ⟨hs.1, .inl hw⟩
        next item items hget =>
          have hi := getNowait_eq_some.mp hget
          obtain ⟨hf, hfull⟩ : force = true ∧ full maxsize s.items = true :=
            hg.resolve_left (by simp [hi])
          rw [if_pos hf] at ht
          cases ht
          exact hs.drop hB hw ((full_iff hB s.items).mp hfull) hi event force

theorem length_content {maxsize : Nat} {s : Feed α} (h : s.items = (awaited s).rtake maxsize) :
    s.items.length = min maxsize (pending s).length := by
  rw [h, length_rtake, length_awaited]

theorem length_holdsNewest {maxsize : Nat} {s : Feed α} (h : HoldsNewest maxsize s) :
    s.items.length = min maxsize (pending s).length ∨
      (∃ event force, s.phase = .putting event force) ∧
        s.items.length + 1 = min maxsize ((pending s).length + 1) := by
  rcases h with h | ⟨event, force, hp, h⟩
  · left
    simpa [content] using congrArg List.length h
  · right
    exact ⟨⟨event, force, hp⟩, by simpa [content] using congrArg List.length h⟩

theorem dropsForced_of_step {maxsize : Nat} (hB : 0 < maxsize) (s : Feed α) (a : Act α)
    (t : Feed α) (hs : Window maxsize s) (ht : step maxsize s a = some t)
    (hn : HoldsNewest maxsize t) : DropsForced maxsize s a := by
  cases a with
  | offer event force => trivial
  | get => trivial
  | advance =>
      simp only [DropsForced]
      split
      next event force hp =>
        have hc := hs.1
        have hlen := length_content (hs.whole (by simp [hp]))
        simp only [step, hp] at ht
        split at ht
        next hget =>
          left
          cases hsi : s.items with
          | nil => rfl
          | cons x xs => simp [hsi, getNowait] at hget
        next item items hget =>
          right
          rw [getNowait_eq_some.mp hget, List.length_cons] at hlen
          rw [full_iff hB, getNowait_eq_some.mp hget, List.length_cons]
          cases force with
          | false =>
              cases ht
              have hp' : (pending ⟨items, .idle, s.offered ++ [event], s.consumed⟩).length =
                  (pending s).length + 1 := by
                simp only [pending, List.length_drop, List.length_append, List.length_singleton]
                omega
              rcases length_holdsNewest hn with h | ⟨⟨_, _, hi⟩, -⟩
              · rw [hp'] at h
                change items.length = _ at h
                omega
              · simp at hi
          | true =>
              cases ht
              refine ⟨rfl, ?_⟩
              rcases length_holdsNewest hn with h | ⟨-, h⟩
              · change items.length = min maxsize (pending s).length at h
                omega
              · change items.length + 1 = min maxsize ((pending s).length + 1) at h
                omega
      next => trivial

theorem dropsForced_of_stuck (maxsize : Nat) (s : Feed α) (a : Act α)
    (ht : step maxsize s a = none) : DropsForced maxsize s a := by
  cases a with
  | offer event force => trivial
  | get => trivial
  | advance =>
      simp only [DropsForced]
      split
      next event force hp =>
        simp only [step, hp] at ht
        split at ht
        next => simp at ht
        next => split at ht <;> simp at ht
      next => trivial

/-- The queue holds the newest events at every point exactly when events are
dropped only from a full queue and only for a forced event. -/
theorem holdsNewest_iff {maxsize : Nat} (hB : 0 < maxsize) (acts : List (Act α)) :
    Always (step maxsize) (HoldsNewest maxsize) Feed.empty acts ↔
      EachStep (step maxsize) (DropsForced maxsize) Feed.empty acts :=
  always_iff_eachStep (fun _ => window_holdsNewest hB) (step_window hB)
    (dropsForced_of_step hB) (dropsForced_of_stuck maxsize)
    ⟨le_refl 0, .inl (by simp [Feed.empty, awaited])⟩

theorem holdsNewest_iff_forced :
    0 < 1 ∧ (Always (step 1) (HoldsNewest 1) Feed.empty
        [.offer 'a' false, .advance, .offer 'b' true, .advance, .advance, .advance] ↔
      EachStep (step 1) (DropsForced 1) Feed.empty
        [.offer 'a' false, .advance, .offer 'b' true, .advance, .advance, .advance]) :=
  ⟨by decide, holdsNewest_iff (by decide) _⟩

/-- An event offered to a full queue takes the oldest with it and is lost. -/
theorem not_holdsNewest_full :
    ¬ ∀ acts : List (Act Char), Always (step 1) (HoldsNewest 1) Feed.empty acts := by
  intro h
  have hrun : run (step 1) Feed.empty
      [.offer 'a' false, .advance, .offer 'b' false, .advance, .advance] =
        some ⟨[], .idle, ['a', 'b'], 0⟩ := rfl
  have hn := (h _).final hrun
  rcases hn with hn | ⟨_, _, hp, -⟩
  · simp [content, pending, List.rtake] at hn
  · simp at hp

end AgentWeb.Offer
