import AgentWeb.Offer
import AgentWeb.Replay
import Mathlib.Data.List.Nodup

namespace AgentWeb.Fanout

open PyText PyJson Protocol Replay Transitions Offer

/-- A subscriber's queue, oldest event first. An event is known by its place in
`seen`. What the consumer has taken is kept, and whether `_close_active` has
made its offer. -/
structure Chan where
  items : List Nat
  taken : List Nat
  since : Int
  closed : Bool

inductive Call
  | broadcast (payload : Dict)
  | closeActive (finalState : Str)
  | subscribe (sinceSeq : Int)
  | unsubscribe (q : Nat)

/-- Where a thread stands in its call: before it looks the run up, before it
takes the lock of the run, or before the next `_offer` of its loop. -/
inductive Thread
  | calling (call : Call)
  | holding (call : Call)
  | offering (event : Nat) (force : Bool) (queues : List Nat)
  | returned

/-- A run and the threads that work on it. `terminal` is the place of the event
that `_close_active` appended. -/
structure Sys where
  active : Bool
  seen : List Dict
  terminal : Option Nat
  subscribers : List Nat
  chans : List Chan
  tasks : List Thread

def Sys.registered : Sys := ⟨true, [], none, [], [], []⟩

def Chan.deliver (maxsize : Nat) (force : Bool) (event : Nat) (c : Chan) : Chan :=
  { c with items := (offer maxsize force event c.items).1, closed := c.closed || force }

/-- The replay of `subscribe` into its own new queue. -/
def replayed (maxsize : Nat) (seen : List Dict) (sinceSeq : Int) : List Nat :=
  (seen.zipIdx.filter fun e => !alreadySeen e.1 sinceSeq).foldl
    (fun items e => (offer maxsize false e.2 items).1) []

def Sys.setTask (s : Sys) (t : Nat) (task : Thread) : Sys := { s with tasks := s.tasks.set t task }

@[simp] theorem setTask_active (s : Sys) (t : Nat) (task : Thread) :
    (s.setTask t task).active = s.active := rfl

@[simp] theorem setTask_terminal (s : Sys) (t : Nat) (task : Thread) :
    (s.setTask t task).terminal = s.terminal := rfl

/-- Append to `seen` and list the subscribers, under the lock. A set is listed
in any order. -/
def Sys.append (s : Sys) (t : Nat) (event : Dict) (force : Bool) (order : List Nat) : Option Sys :=
  if order.isPerm s.subscribers then
    some { s.setTask t (.offering s.seen.length force order) with seen := s.seen ++ [event] }
  else none

def advance (maxsize : Nat) (s : Sys) (t : Nat) (order : List Nat) : Thread → Option Sys
  -- the lookup in `_active`, which for `_close_active` is a pop
  | .calling call =>
      let s' := s.setTask t (if s.active then .holding call else .returned)
      match call with
      | .closeActive _ => some { s' with active := false }
      | _ => some s'
  | .holding (.broadcast payload) => s.append t payload false order
  | .holding (.closeActive finalState) =>
      (s.append t (runEvent finalState) true order).map fun s' =>
        { s' with terminal := some s.seen.length }
  | .holding (.subscribe sinceSeq) =>
      some { s.setTask t .returned with
        chans := s.chans ++ [⟨replayed maxsize s.seen sinceSeq, [], sinceSeq, false⟩]
        subscribers := s.subscribers ++ [s.chans.length] }
  | .holding (.unsubscribe q) =>
      some { s.setTask t .returned with subscribers := s.subscribers.erase q }
  -- the puts come after the lock of the run is released
  | .offering event force (q :: queues) =>
      some { s.setTask t (.offering event force queues) with
        chans := s.chans.modify q (Chan.deliver maxsize force event) }
  | .offering _ _ [] => some (s.setTask t .returned)
  | .returned => none

def Chan.get (c : Chan) : Option Chan :=
  match getNowait c.items with
  | some (event, items) => some { c with items := items, taken := c.taken ++ [event] }
  | none => none

/-- A new call, a step of thread `t`, or a consumer that takes an event. -/
inductive Act
  | call (call : Call)
  | advance (t : Nat) (order : List Nat)
  | get (q : Nat)

def step (maxsize : Nat) (s : Sys) : Act → Option Sys
  | .call call => some { s with tasks := s.tasks ++ [.calling call] }
  | .advance t order => (s.tasks[t]?).bind (advance maxsize s t order)
  | .get q => ((s.chans[q]?).bind Chan.get).map fun c => { s with chans := s.chans.set q c }

def received (c : Chan) : List Nat := c.taken ++ c.items

def Thread.owed (q : Nat) : Thread → List Nat
  | .offering event _ queues => List.replicate (queues.count q) event
  | _ => []

def owed (s : Sys) (q : Nat) : List Nat := s.tasks.flatMap (Thread.owed q)

def Thread.isClosing : Thread → Bool
  | .holding (.closeActive _) => true
  | _ => false

@[simp] theorem isClosing_calling (call : Call) : (Thread.calling call).isClosing = false := rfl

@[simp] theorem isClosing_offering (event : Nat) (force : Bool) (queues : List Nat) :
    (Thread.offering event force queues).isClosing = false := rfl

@[simp] theorem isClosing_returned : Thread.returned.isClosing = false := rfl

inductive Move (maxsize : Nat) (s : Sys) : Act → Sys → Prop
  | call (call : Call) : Move maxsize s (.call call) { s with tasks := s.tasks ++ [.calling call] }
  | lookUp (t : Nat) (order : List Nat) (call : Call) (task : Thread) (active : Bool)
      (ht : s.tasks[t]? = some (.calling call))
      (htask : task = .returned ∨
        task = .holding call ∧ s.active = true ∧ (task.isClosing → active = false))
      (hactive : active = true → s.active = true) :
      Move maxsize s (.advance t order) { s.setTask t task with active := active }
  | append (t : Nat) (order : List Nat) (call : Call) (event : Dict) (force : Bool)
      (terminal : Option Nat) (ht : s.tasks[t]? = some (.holding call))
      (horder : order.Perm s.subscribers)
      (hforce : force = false ∧ call = .broadcast event ∧ terminal = s.terminal ∨
        force = true ∧ (Thread.holding call).isClosing ∧ terminal = some s.seen.length ∧
          ∃ finalState, call = .closeActive finalState ∧ event = runEvent finalState) :
      Move maxsize s (.advance t order)
        { s.setTask t (.offering s.seen.length force order) with
          seen := s.seen ++ [event], terminal := terminal }
  | attach (t : Nat) (order : List Nat) (sinceSeq : Int)
      (ht : s.tasks[t]? = some (.holding (.subscribe sinceSeq))) :
      Move maxsize s (.advance t order)
        { s.setTask t .returned with
          chans := s.chans ++ [⟨replayed maxsize s.seen sinceSeq, [], sinceSeq, false⟩]
          subscribers := s.subscribers ++ [s.chans.length] }
  | detach (t : Nat) (order : List Nat) (q : Nat)
      (ht : s.tasks[t]? = some (.holding (.unsubscribe q))) :
      Move maxsize s (.advance t order)
        { s.setTask t .returned with subscribers := s.subscribers.erase q }
  | deliver (t : Nat) (order : List Nat) (event : Nat) (force : Bool) (q : Nat) (queues : List Nat)
      (ht : s.tasks[t]? = some (.offering event force (q :: queues))) :
      Move maxsize s (.advance t order)
        { s.setTask t (.offering event force queues) with
          chans := s.chans.modify q (Chan.deliver maxsize force event) }
  | done (t : Nat) (order : List Nat) (event : Nat) (force : Bool)
      (ht : s.tasks[t]? = some (.offering event force [])) :
      Move maxsize s (.advance t order) (s.setTask t .returned)
  | get (q : Nat) (c : Chan) (event : Nat) (items : List Nat) (hc : s.chans[q]? = some c)
      (hi : c.items = event :: items) :
      Move maxsize s (.get q)
        { s with chans := s.chans.set q { c with items := items, taken := c.taken ++ [event] } }

theorem append_eq_some {s s' : Sys} {t : Nat} {event : Dict} {force : Bool} {order : List Nat}
    (h : s.append t event force order = some s') :
    order.Perm s.subscribers ∧
      s' = { s.setTask t (.offering s.seen.length force order) with seen := s.seen ++ [event] } := by
  rw [Sys.append] at h
  split at h
  next hp =>
    cases h
    exact ⟨List.isPerm_iff.mp hp, rfl⟩
  next => simp at h

theorem step_move {maxsize : Nat} {s s' : Sys} {a : Act} (h : step maxsize s a = some s') :
    Move maxsize s a s' := by
  cases a with
  | call call =>
      cases h
      exact .call call
  | get q =>
      obtain ⟨c', hc', rfl⟩ := Option.map_eq_some_iff.mp h
      obtain ⟨c, hc, hget⟩ := Option.bind_eq_some_iff.mp hc'
      rw [Chan.get] at hget
      split at hget
      next event items hi =>
        cases hget
        exact .get q c event items hc (getNowait_eq_some.mp hi)
      next => simp at hget
  | advance t order =>
      obtain ⟨task, ht, hadv⟩ := Option.bind_eq_some_iff.mp h
      simp only [advance] at hadv
      split at hadv
      next call =>
        cases hact : s.active with
        | true =>
            rw [hact, if_pos rfl] at hadv
            split at hadv
            next state =>
              cases hadv
              exact .lookUp t order _ _ false ht (.inr ⟨rfl, hact, fun _ => rfl⟩) (by simp)
            next hno =>
              cases hadv
              have hcl : ¬ (Thread.holding call).isClosing := by
                cases call <;> simp_all [Thread.isClosing]
              change Move maxsize s _ { s.setTask t (.holding call) with active := s.active }
              exact .lookUp t order call _ _ ht (.inr ⟨rfl, hact, fun hc => absurd hc hcl⟩) id
        | false =>
            rw [hact, if_neg (by simp)] at hadv
            split at hadv
            next state =>
              cases hadv
              exact .lookUp t order _ _ false ht (.inl rfl) (by simp)
            next =>
              cases hadv
              change Move maxsize s _ { s.setTask t .returned with active := s.active }
              exact .lookUp t order call _ _ ht (.inl rfl) id
      next payload =>
        obtain ⟨hp, rfl⟩ := append_eq_some hadv
        exact .append t order _ payload false s.terminal ht hp (.inl ⟨rfl, rfl, rfl⟩)
      next state =>
        obtain ⟨s1, hs1, rfl⟩ := Option.map_eq_some_iff.mp hadv
        obtain ⟨hp, rfl⟩ := append_eq_some hs1
        exact .append t order _ _ true _ ht hp (.inr ⟨rfl, rfl, rfl, state, rfl, rfl⟩)
      next since =>
        cases hadv
        exact .attach t order since ht
      next q =>
        cases hadv
        exact .detach t order q ht
      next event force q queues =>
        cases hadv
        exact .deliver t order event force q queues ht
      next event force =>
        cases hadv
        exact .done t order event force ht
      next => simp at hadv

theorem flatMap_set_perm {α β : Type*} (f : α → List β) {ls : List α} {i : Nat} {a : α}
    (h : ls[i]? = some a) (b : α) :
    ((ls.set i b).flatMap f ++ f a).Perm (ls.flatMap f ++ f b) := by
  obtain ⟨hi, rfl⟩ := List.getElem?_eq_some_iff.mp h
  obtain ⟨as, bs, hls, -, hset⟩ : ∃ as bs, ls = as ++ ls[i] :: bs ∧ as.length = i ∧
      ls.set i b = as ++ b :: bs := List.exists_of_set hi
  rw [hset]
  conv_rhs => rw [hls]
  simp only [List.flatMap_append, List.flatMap_cons, List.append_assoc]
  exact .append_left _ ((List.perm_append_comm_assoc ..).trans
    ((List.perm_append_comm.append_left _).trans (List.perm_append_comm_assoc ..)))

theorem owed_set {s : Sys} {t : Nat} {task : Thread} (h : s.tasks[t]? = some task) (task' : Thread)
    (q : Nat) :
    (owed (s.setTask t task') q ++ task.owed q).Perm (owed s q ++ task'.owed q) :=
  flatMap_set_perm (Thread.owed q) h task'

theorem mem_owed {s : Sys} {q e : Nat} :
    e ∈ owed s q ↔ ∃ force queues, Thread.offering e force queues ∈ s.tasks ∧ q ∈ queues := by
  rw [owed, List.mem_flatMap]
  constructor
  · rintro ⟨task, ht, he⟩
    cases task with
    | offering event force queues =>
        rw [Thread.owed, List.mem_replicate] at he
        obtain ⟨hne, rfl⟩ := he
        exact ⟨force, queues, ht, List.count_pos_iff.mp (Nat.pos_of_ne_zero hne)⟩
    | _ => simp [Thread.owed] at he
  · rintro ⟨force, queues, ht, hq⟩
    refine ⟨_, ht, ?_⟩
    rw [Thread.owed, List.mem_replicate]
    exact ⟨(List.count_pos_iff.mpr hq).ne', rfl⟩

/-- How many threads or places account for the terminal event: the entry in
`_active`, a thread that popped it, the event itself. -/
def closers (s : Sys) : Nat :=
  s.tasks.countP Thread.isClosing + s.active.toNat + s.terminal.isSome.toNat

structure Wired (s : Sys) : Prop where
  subscribed : ∀ q ∈ s.subscribers, q < s.chans.length
  distinct : s.subscribers.Nodup
  targets : ∀ e force queues, Thread.offering e force queues ∈ s.tasks →
    e < s.seen.length ∧ queues.Nodup ∧ (∀ q ∈ queues, q < s.chans.length) ∧
      (force = true → s.terminal = some e)
  terminal : ∀ f, s.terminal = some f → f < s.seen.length
  closed : closers s ≤ 1

theorem Wired.of_tasks {s s' : Sys} (hs : Wired s) (hsub : s'.subscribers.Sublist s.subscribers)
    (hchans : s'.chans.length = s.chans.length) (hseen : s'.seen = s.seen)
    (hterm : s'.terminal = s.terminal)
    (htasks : ∀ e force queues, Thread.offering e force queues ∈ s'.tasks →
      ∃ more, Thread.offering e force more ∈ s.tasks ∧ queues <:+ more)
    (hclosed : closers s' ≤ closers s) : Wired s' where
  subscribed q hq := hchans ▸ hs.subscribed q (hsub.subset hq)
  distinct := hs.distinct.sublist hsub
  targets e force queues ht := by
    obtain ⟨more, hmore, hsuf⟩ := htasks e force queues ht
    obtain ⟨hlt, hnd, hq, hforce⟩ := hs.targets e force more hmore
    rw [hseen, hchans, hterm]
    exact ⟨hlt, hnd.sublist hsuf.sublist, fun q hmem => hq q (hsuf.subset hmem), hforce⟩
  terminal f hf := by
    rw [hseen]
    exact hs.terminal f (hterm ▸ hf)
  closed := hclosed.trans hs.closed

theorem offering_mem_set {tasks : List Thread} {t : Nat} {task : Thread} {e : Nat} {force : Bool}
    {queues : List Nat} (h : Thread.offering e force queues ∈ tasks.set t task) :
    Thread.offering e force queues ∈ tasks ∨ task = .offering e force queues := by
  rcases List.mem_or_eq_of_mem_set h with h | h
  · exact .inl h
  · exact .inr h.symm

theorem countP_set {tasks : List Thread} {t : Nat} {task : Thread} (ht : tasks[t]? = some task)
    (task' : Thread) :
    (tasks.set t task').countP Thread.isClosing + task.isClosing.toNat =
      tasks.countP Thread.isClosing + task'.isClosing.toNat := by
  obtain ⟨hi, rfl⟩ := List.getElem?_eq_some_iff.mp ht
  have hpos : tasks[t].isClosing → 0 < tasks.countP Thread.isClosing :=
    fun h => List.countP_pos_iff.mpr ⟨_, List.getElem_mem hi, h⟩
  rw [List.countP_set hi]
  cases h : tasks[t].isClosing with
  | false => cases task'.isClosing <;> simp
  | true =>
      have := hpos h
      cases task'.isClosing <;> simp <;> omega

theorem closers_setTask {s s' : Sys} {t : Nat} {task task' : Thread} (ht : s.tasks[t]? = some task)
    (htasks : s'.tasks = s.tasks.set t task')
    (h : task'.isClosing.toNat + s'.active.toNat + s'.terminal.isSome.toNat ≤
      task.isClosing.toNat + s.active.toNat + s.terminal.isSome.toNat) :
    closers s' ≤ closers s := by
  have hcount := countP_set ht task'
  rw [closers, closers, htasks]
  omega

theorem Wired.closing {s : Sys} (hs : Wired s) {t : Nat} {task : Thread}
    (ht : s.tasks[t]? = some task) (hc : task.isClosing) :
    s.active = false ∧ s.terminal = none := by
  have hpos : 0 < s.tasks.countP Thread.isClosing :=
    List.countP_pos_iff.mpr ⟨task, List.mem_of_getElem? ht, hc⟩
  have hle := hs.closed
  rw [closers] at hle
  constructor
  · cases ha : s.active with
    | false => rfl
    | true =>
        rw [ha, Bool.toNat_true] at hle
        omega
  · cases hf : s.terminal with
    | none => rfl
    | some f =>
        rw [hf, Option.isSome_some, Bool.toNat_true] at hle
        omega

theorem offering_setTask {tasks : List Thread} {t : Nat} {task : Thread}
    (htask : ∀ e force queues, task = .offering e force queues →
      ∃ more, Thread.offering e force more ∈ tasks ∧ queues <:+ more) :
    ∀ e force queues, Thread.offering e force queues ∈ tasks.set t task →
      ∃ more, Thread.offering e force more ∈ tasks ∧ queues <:+ more := by
  intro e force queues h
  rcases offering_mem_set h with h | h
  · exact ⟨queues, h, List.suffix_rfl⟩
  · exact htask e force queues h

theorem move_wired {maxsize : Nat} {s s' : Sys} {a : Act} (hs : Wired s)
    (hm : Move maxsize s a s') : Wired s' := by
  cases hm with
  | call call =>
      refine hs.of_tasks (List.Sublist.refl _) rfl rfl rfl ?_ ?_
      · intro e force queues h
        exact ⟨queues, by simpa using h, List.suffix_rfl⟩
      · simp [closers]
  | lookUp t order call task active ht htask hactive =>
      have hnone : ∀ e force queues, task ≠ .offering e force queues := by
        rintro e force queues rfl
        rcases htask with h | ⟨h, -, -⟩ <;> cases h
      refine hs.of_tasks (List.Sublist.refl _) rfl rfl rfl ?_ ?_
      · exact offering_setTask fun e force queues h => absurd h (hnone e force queues)
      · apply closers_setTask ht rfl
        have hact : active.toNat ≤ s.active.toNat := by
          cases active with
          | false => exact Nat.zero_le _
          | true => rw [hactive rfl]
        change task.isClosing.toNat + active.toNat + _ ≤ _
        rcases htask with rfl | ⟨-, htrue, hpop⟩
        · simpa using hact
        · cases hc : task.isClosing with
          | true => simp [hpop hc, htrue]
          | false => simpa using hact
  | append t order call event force terminal ht horder hforce =>
      have hold : ∀ e, s.terminal = some e → terminal = some e := by
        intro e he
        rcases hforce with ⟨-, -, rfl⟩ | ⟨-, hc, -⟩
        · exact he
        · simp [(hs.closing ht hc).2] at he
      refine ⟨hs.subscribed, hs.distinct, fun e force' queues h => ?_, fun f hf => ?_, ?_⟩
      · simp only [List.length_append, List.length_singleton]
        rcases offering_mem_set h with h | h
        · obtain ⟨hlt, hnd, hq, hf⟩ := hs.targets e force' queues h
          exact ⟨by omega, hnd, hq, fun h => hold e (hf h)⟩
        · cases h
          refine ⟨by omega, horder.nodup_iff.mpr hs.distinct,
            fun q hq => hs.subscribed q (horder.subset hq), fun h => ?_⟩
          rcases hforce with ⟨hfalse, -, -⟩ | ⟨-, -, hterm, -⟩
          · simp [hfalse] at h
          · exact hterm
      · simp only [List.length_append, List.length_singleton]
        rcases hforce with ⟨-, -, rfl⟩ | ⟨-, -, hterm, -⟩
        · have := hs.terminal f hf
          omega
        · obtain rfl : s.seen.length = f := Option.some.inj (hterm.symm.trans hf)
          omega
      · refine hs.closed.trans' (closers_setTask ht rfl ?_)
        rcases hforce with ⟨-, rfl, rfl⟩ | ⟨-, hc, rfl, -⟩
        · exact Nat.le_refl _
        · simp [hc, (hs.closing ht hc).2, Nat.add_comm]
  | attach t order sinceSeq ht =>
      refine ⟨fun q hq => ?_, ?_, fun e force queues h => ?_, hs.terminal, ?_⟩
      · simp only [List.length_append, List.length_singleton]
        rcases List.mem_append.mp hq with hq | hq
        · have := hs.subscribed q hq
          omega
        · rw [List.mem_singleton.mp hq]
          omega
      · apply List.nodup_append.mpr
        refine ⟨hs.distinct, by simp, fun q hq p hp => ?_⟩
        rw [List.mem_singleton.mp hp]
        exact (hs.subscribed q hq).ne
      · rcases offering_mem_set h with h | h
        · obtain ⟨hlt, hnd, hq, hf⟩ := hs.targets e force queues h
          refine ⟨hlt, hnd, fun q hmem => ?_, hf⟩
          simp only [List.length_append, List.length_singleton]
          have := hq q hmem
          omega
        · cases h
      · exact hs.closed.trans' (closers_setTask ht rfl (Nat.le_refl _))
  | detach t order q ht =>
      refine hs.of_tasks List.erase_sublist rfl rfl rfl ?_ ?_
      · exact offering_setTask nofun
      · exact closers_setTask ht rfl (Nat.le_refl _)
  | deliver t order event force q queues ht =>
      refine hs.of_tasks (List.Sublist.refl _) (List.length_modify ..) rfl rfl ?_ ?_
      · apply offering_setTask
        intro e force' queues' h
        cases h
        exact ⟨_, List.mem_of_getElem? ht, List.suffix_cons _ _⟩
      · exact closers_setTask ht rfl (Nat.le_refl _)
  | done t order event force ht =>
      refine hs.of_tasks (List.Sublist.refl _) rfl rfl rfl ?_ ?_
      · exact offering_setTask nofun
      · exact closers_setTask ht rfl (Nat.le_refl _)
  | get q c event items hc hi =>
      refine hs.of_tasks (List.Sublist.refl _) (List.length_set ..) rfl rfl ?_ ?_
      · exact fun e force queues h => ⟨queues, h, List.suffix_rfl⟩
      · exact Nat.le_refl _

theorem registered_wired : Wired .registered where
  subscribed := by simp [Sys.registered]
  distinct := List.nodup_nil
  targets := by simp [Sys.registered]
  terminal := by simp [Sys.registered]
  closed := le_rfl

end AgentWeb.Fanout
