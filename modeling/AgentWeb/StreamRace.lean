import AgentWeb.SeenOrder
import AgentWeb.StreamEnd

namespace AgentWeb.StreamRace

open PyText PyJson Protocol Replay Transitions Finish Delivery SeenOrder Session StreamFan Steady
open StreamEnd
open Fanout hiding step step_move Act Move

def Tells (status : Str) (all : List Dict) (sinceSeq : Int) (served : List Dict) : Prop :=
  Terminal status ∧ served.getLast? = some (runEvent status) ∧
    (sinceSeq ≤ 0 → served = all ++ [runEvent status])

/-- A stream goes on and has yet to get the terminal event, or was served to the
end. Replayed are the deltas in blocks. -/
def TellsAll [Interpreter] (s : State) : Prop :=
  ∀ client ∈ s.clients, match client with
    | .live q => ((∀ e ∈ streamed s.fan q, isRun e = false) ∧ Awaits s.fan q) ∨
        ∃ c : Chan, s.fan.chans[q]? = some c ∧
          Tells s.row.status (transcript s.fan) c.since (streamed s.fan q)
    | .replayed sinceSeq served =>
        Tells s.row.status (mergeEvents (transcript s.fan)) sinceSeq served
    | _ => True

/-- No event meets a full queue. -/
def Roomy (limits : Limits) (s : State) (a : Act) : Prop :=
  ∀ a', fanAct s a = some a' → Fits limits.maxSubscriberQueue s.fan a'

instance (limits : Limits) (s : State) (a : Act) : Decidable (Roomy limits s a) :=
  match h : fanAct s a with
  | some a' => decidable_of_iff (Fits limits.maxSubscriberQueue s.fan a') (by simp [Roomy, h])
  | none => .isTrue (by simp [Roomy, h])

/-- The transcript is stored whole. -/
def StoresAll [Interpreter] (limits : Limits) (s : State) : Act → Prop
  | .commit => limits.maxStoredEvents ≤ 0 ∨
      ((mergeEvents s.fan.seen).length : Int) ≤ limits.maxStoredEvents
  | _ => True

instance [Interpreter] (limits : Limits) (s : State) : (a : Act) → Decidable (StoresAll limits s a)
  | .commit => inferInstanceAs (Decidable (_ ∨ _))
  | .register | .sandboxFails _ | .line _ | .send | .cancel | .finish _ | .close | .load _
  | .subscribe _ | .attach _ | .take _ | .leave _ | .advance _ _ => .isTrue trivial

def Complete (f : Sys) : Prop :=
  ∀ (q : Nat) (c : Chan), f.chans[q]? = some c → c.since ≤ 0 → Ended f q →
    c.taken = List.range f.seen.length

theorem offering_unique {stage : Stage} {sender : Option Nat} {f : Sys}
    (h : Orderly stage sender f) {t event event' : Nat} {force force' : Bool}
    {queues queues' : List Nat} (ht : f.tasks[t]? = some (.offering event force queues))
    (hmem : Thread.offering event' force' queues' ∈ f.tasks) : event' = event := by
  obtain ⟨t', ht'⟩ := List.getElem?_of_mem hmem
  have hs := (h.role t _ ht).2 rfl
  have hs' := (h.role t' _ ht').2 rfl
  cases hs.symm.trans hs'
  cases ht.symm.trans ht'
  rfl

theorem inOrder_of_orderly {stage : Stage} {sender : Option Nat} {f : Sys}
    (h : Orderly stage sender f) (a : Fanout.Act) : InOrder f a := by
  cases a with
  | call call => trivial
  | get q => trivial
  | advance t order =>
      simp only [InOrder]
      split
      next event force q queues ht =>
        intro e he
        obtain ⟨force', queues', hmem, -⟩ := mem_owed.mp he
        exact (offering_unique h ht hmem).ge
      next payload ht =>
        have hrole := (h.role t _ ht).1
        exact h.terminal_none fun st hst => by simp [hrole.1] at hst
      next => trivial

theorem taken_of_ended {f : Sys} (hs : Sorted f) (hc : Covers f) (ho : Once f) {q : Nat} {c : Chan}
    (hq : q ∈ f.subscribers) (hchan : f.chans[q]? = some c) (hsince : c.since ≤ 0) {i : Nat} (hi : f.terminal = some i) (hmem : i ∈ c.taken) :
    c.taken = List.range f.seen.length := by
  have hlen := hs.last i hi
  have hall := (ho q c hchan).2
  have hpair := hs.order q c hchan
  rw [received, List.pairwise_append] at hpair
  have hitems : c.items = [] := by
    rw [List.eq_nil_iff_forall_not_mem]
    intro e he
    have hlt := hpair.2.2 i hmem e he
    have hle := hall e (by simp [received, he])
    omega
  have howed : owed f q = [] := by
    rw [List.eq_nil_iff_forall_not_mem]
    intro e he
    have hlt := hs.before q c hchan i (by simp [received, hmem]) e he
    have hle := hall e (by simp [he])
    omega
  have hperm := hc q hq c hchan hsince
  rw [received, hitems, howed, List.append_nil, List.append_nil] at hperm
  exact hperm.eq_of_pairwise (fun a b _ _ hab hba => absurd hab hba.not_gt) hpair.1
    List.pairwise_lt_range

theorem Complete.of_taken {f f' : Sys} (h : Complete f) (hseen : f'.seen = f.seen)
    (hterm : f'.terminal = f.terminal)
    (hchans : ∀ (q : Nat) (c' : Chan), f'.chans[q]? = some c' →
      (∃ c : Chan, f.chans[q]? = some c ∧ c'.taken = c.taken ∧ c'.since = c.since) ∨
        c'.taken = []) : Complete f' := by
  intro q c' hc' hsince hended
  obtain ⟨c0, i, hc0, hi, hmem⟩ := hended
  cases hc'.symm.trans hc0
  rcases hchans q c' hc' with ⟨c, hc, htaken, hs⟩ | hnil
  · rw [htaken] at hmem
    rw [htaken, hseen]
    exact h q c hc (hs ▸ hsince) ⟨c, i, hc, hterm ▸ hi, hmem⟩
  · simp [hnil] at hmem

theorem move_complete {maxsize : Nat} {stage : Stage} {sender : Option Nat} {f f' : Sys}
    {a : Fanout.Act} (ho : Orderly stage sender f) (h : Complete f) (hs' : Sorted f')
    (hc' : Covers f') (hopen : ∀ q, a = .get q → ¬ Ended f q) (hm : Fanout.Move maxsize f a f') :
    Complete f' := by
  have honce := move_once ho.wired ho.once hm
  cases hm with
  | call call => exact h.of_taken rfl rfl fun q c hc => .inl ⟨c, hc, rfl, rfl⟩
  | lookUp t order call task active ht htask hactive =>
      exact h.of_taken rfl rfl fun q c hc => .inl ⟨c, hc, rfl, rfl⟩
  | append t order call event force terminal ht horder hforce =>
      intro q c hc hsince hended
      obtain ⟨c0, i, hc0, hi, hmem⟩ := hended
      cases hc.symm.trans hc0
      have hlt := (ho.once q c hc).2 i (by simp [received, hmem])
      rcases hforce with ⟨-, rfl, rfl⟩ | ⟨-, -, rfl, -⟩
      · have hrole := (ho.role t _ ht).1
        have hnone := ho.terminal_none fun st hst => by simp [hrole.1] at hst
        simp [hnone] at hi
      · cases hi
        exact absurd hlt (lt_irrefl _)
  | attach t order sinceSeq ht =>
      refine h.of_taken rfl rfl fun q c hc => ?_
      rcases getElem?_attach hc with hc | ⟨-, rfl⟩
      · exact .inl ⟨c, hc, rfl, rfl⟩
      · exact .inr rfl
  | detach t order q ht => exact h.of_taken rfl rfl fun q c hc => .inl ⟨c, hc, rfl, rfl⟩
  | deliver t order event force p queues ht =>
      refine h.of_taken rfl rfl fun q c' hc' => ?_
      obtain ⟨c, hc, rfl⟩ := getElem?_deliver hc'
      refine .inl ⟨c, hc, ?_, ?_⟩ <;> split <;> rfl
  | done t order event force ht => exact h.of_taken rfl rfl fun q c hc => .inl ⟨c, hc, rfl, rfl⟩
  | get p c event items hc hitems =>
      intro q c' hchan hsince hended
      by_cases hold : Ended f q
      · have hne : p ≠ q := by
          rintro rfl
          exact hopen p rfl hold
        have hsame : f.chans[q]? = some c' := (List.getElem?_set_ne hne).symm.trans hchan
        exact h q c' hsame hsince hold
      · obtain ⟨c0, hc0, -⟩ := getElem?_get hc hitems hchan
        have hq : q ∈ f.subscribers := (ho.held q c0 hc0).resolve_right hold
        obtain ⟨c1, i, hc1, hi, hmem⟩ := hended
        cases hchan.symm.trans hc1
        exact taken_of_ended hs' hc' honce hq hchan hsince hi hmem

structure Supplied (f : Sys) : Prop where
  sorted : Sorted f
  covers : Covers f
  complete : Complete f
  awaited : Awaited f

theorem alreadySeen_runEvent (status : Str) (sinceSeq : Int) :
    alreadySeen (runEvent status) sinceSeq = false :=
  alreadySeen_null rfl sinceSeq

theorem replayed_terminal {maxsize : Nat} {stage : Stage} {sender : Option Nat} {f : Sys}
    (h : Orderly stage sender f) {sinceSeq : Int} (hfits : ReplayFits maxsize f.seen sinceSeq)
    {i : Nat} (hi : f.terminal = some i) : i ∈ replayed maxsize f.seen sinceSeq := by
  obtain ⟨status, -, hseen⟩ := h.final i hi
  rw [replayed_fits hfits, unseen, List.mem_map]
  refine ⟨(runEvent status, i), List.mem_filter.mpr ⟨?_, ?_⟩, rfl⟩
  · rw [List.mem_zipIdx_iff_getElem?]
    exact hseen
  · simp [alreadySeen_runEvent]

theorem move_supplied {maxsize : Nat} {stage : Stage} {sender : Option Nat} {f f' : Sys}
    {a : Fanout.Act} (ho : Orderly stage sender f) (h : Supplied f) (hfits : Fits maxsize f a)
    (hopen : ∀ q, a = .get q → ¬ Ended f q) (hm : Fanout.Move maxsize f a f') : Supplied f' := by
  have hsorted := move_sorted ho.wired ho.once h.sorted (inOrder_of_orderly ho a) hm
  have hcovers := move_covers ho.wired h.covers hfits hm
  refine ⟨hsorted, hcovers, move_complete ho h.complete hsorted hcovers hopen hm, ?_⟩
  refine move_awaited ho h.awaited (fun t order sinceSeq ha ht i hi => ?_) hm
  subst ha
  simp only [Fits, ht] at hfits
  exact replayed_terminal ho hfits hi

section Interpreter

variable [Interpreter]

theorem open_of_get {limits : Limits} {s s' : State} {a : Act} {q : Nat}
    (hstep : step limits s a = some s') (ha : fanAct s a = some (.get q)) :
    (streamed s.fan q).any isRun = false := by
  cases step_move hstep with
  | take k p fan hclient hopen hfan =>
      simp only [fanAct, hclient, Option.some.injEq, Fanout.Act.get.injEq] at ha
      exact ha ▸ hopen
  | _ => simp_all [fanAct]

theorem step_supplied {limits : Limits} {s s' : State} {a : Act} (h : Invariant limits s)
    (hs : Supplied s.fan) (hg : Roomy limits s a) (hstep : step limits s a = some s') :
    Supplied s'.fan := by
  rcases step_fan hstep with heq | heq | ⟨a', ha, hfan⟩
  · rwa [heq]
  · rw [heq]
    exact ⟨⟨hs.sorted.order, hs.sorted.before, hs.sorted.last⟩, hs.covers, hs.complete, hs.awaited⟩
  · refine move_supplied h.orderly hs (hg a' ha) (fun q hq hended => ?_) (Fanout.step_move hfan)
    have hopen := open_of_get hstep (ha.trans (congrArg some hq))
    rw [streamed_ended h.orderly hended] at hopen
    cases hopen

theorem row_of_calm {limits : Limits} {s s' : State} {a : Act} (hg : Calm s a)
    (hm : Move limits s a s') : a = .commit ∨ s'.row = s.row := by
  cases hm with
  | cancel hactive hrow => exact absurd hrow (hg hactive)
  | commit => exact .inl rfl
  | rollback => exact .inl rfl
  | _ => exact .inr rfl

theorem stage_of_terminal {limits : Limits} {s : State} (h : Invariant limits s)
    (hrow : Terminal s.row.status) : s.stage ≠ .running := by
  intro hstage
  have hr := h.row
  rw [hstage] at hr
  exact hrow.ne_running hr.1

def Short (limits : Limits) (s : State) : Prop :=
  Terminal s.row.status → limits.maxStoredEvents ≤ 0 ∨
    ((mergeEvents (transcript s.fan)).length : Int) ≤ limits.maxStoredEvents

theorem step_short {limits : Limits} {s s' : State} {a : Act} (h : Invariant limits s)
    (hs : Short limits s) (hcalm : Calm s a) (hg : StoresAll limits s a)
    (hstep : step limits s a = some s') : Short limits s' := by
  have hm := step_move hstep
  rcases row_of_calm hcalm hm with rfl | hrow
  · intro _
    cases hm with
    | commit outcome finalState events hstage =>
        have hnone := h.orderly.terminal_none (by simp [hstage])
        change _ ∨ ((mergeEvents (transcript s.fan)).length : Int) ≤ _
        rwa [transcript_open hnone]
    | rollback outcome finalState events hstage hraise => exact absurd (hcalm _ _ _ hstage) hraise
  · intro hterm
    rw [hrow] at hterm
    rcases step_fan hstep with heq | heq | ⟨a', ha, hfan⟩
    · rw [heq]
      exact hs hterm
    · rw [heq]
      exact hs hterm
    · have hkeep := move_transcript h.orderly (stage_of_terminal h hterm) (Fanout.step_move hfan)
      rw [hkeep.1]
      exact hs hterm

omit [Interpreter] in
theorem filterMap_getElem?_range (xs : List Dict) :
    (List.range xs.length).filterMap (fun i => xs[i]?) = xs := by
  induction xs using List.reverseRecOn with
  | nil => rfl
  | append_singleton xs x ih =>
      rw [List.length_append, List.length_singleton, List.range_succ, List.filterMap_append]
      congr 1
      · conv_rhs => rw [← ih]
        apply List.filterMap_congr
        intro i hi
        exact List.getElem?_append_left (List.mem_range.mp hi)
      · simp

omit [Interpreter] in
theorem seen_of_terminal {stage : Stage} {sender : Option Nat} {f : Sys}
    (h : Orderly stage sender f) (hs : Sorted f) {i : Nat} (hi : f.terminal = some i) :
    ∃ finalState, stage = .closing finalState ∧ f.seen = transcript f ++ [runEvent finalState] := by
  obtain ⟨finalState, hstage, hseen⟩ := h.final i hi
  refine ⟨finalState, hstage, ?_⟩
  have hlen := hs.last i hi
  have hlt : i < f.seen.length := by omega
  rw [transcript, hi, Option.getD_some, ← (List.getElem?_eq_some_iff.mp hseen).2,
    List.take_append_getElem hlt, ← hlen, List.take_length]

theorem tells_streamed {limits : Limits} {s : State} (h : Invariant limits s) (hs : Supplied s.fan)
    {q : Nat} (hq : Ended s.fan q) :
    ∃ c : Chan, s.fan.chans[q]? = some c ∧
      Tells s.row.status (transcript s.fan) c.since (streamed s.fan q) := by
  obtain ⟨hterm, pre, hpre, -⟩ := endsWith_streamed h hq
  have hended := hq
  obtain ⟨c, i, hc, hi, -⟩ := hended
  refine ⟨c, hc, hterm, by simp [hpre], fun hsince => ?_⟩
  obtain ⟨finalState, hstage, hseen⟩ := seen_of_terminal h.orderly hs.sorted hi
  have hr := h.row
  rw [hstage] at hr
  have hall : streamed s.fan q = s.fan.seen := by
    rw [streamed, hc, Option.elim_some, hs.complete q c hc hsince hq, filterMap_getElem?_range]
  rw [hall, hr.1]
  exact hseen

theorem tells_replayed {limits : Limits} {s : State} (h : Invariant limits s)
    (hs : Short limits s) (hrow : Terminal s.row.status) (sinceSeq : Int) :
    Tells s.row.status (mergeEvents (transcript s.fan)) sinceSeq
      (replayPayloads s.row.events s.row.status sinceSeq) := by
  refine ⟨hrow, by simp [replayPayloads], fun hsince => ?_⟩
  rw [replayPayloads, row_of_terminal h hrow, coalesceEvents_of_le (hs hrow),
    List.filter_eq_self.mpr]
  simp [alreadySeen, hsince]

theorem tellsAll_of_invariant {limits : Limits} {s : State} (h : Invariant limits s)
    (hs : Supplied s.fan) (hshort : Short limits s) : TellsAll s := by
  have hends := endsOnce_of_invariant h hs.awaited
  intro client hc
  have htold := h.told client hc
  cases client with
  | loaded row sinceSeq => trivial
  | attaching row sinceSeq t => trivial
  | replayed sinceSeq served =>
      obtain ⟨hrow, rfl⟩ := htold
      exact tells_replayed h hshort hrow sinceSeq
  | live q =>
      by_cases hq : Ended s.fan q
      · exact .inr (tells_streamed h hs hq)
      · refine .inl ((hends _ hc).resolve_right ?_)
        rintro ⟨-, pre, hserved, -⟩
        refine hq (ended_of_streamed h.orderly (e := runEvent s.row.status) ?_ (isStr_iff.mpr rfl))
        rw [hserved]
        simp

/-- However a request races the start and the end of a run: where every step is
calm, no event meets a full queue and the transcript is stored whole, it is
served to the end. -/
theorem tellsAll_of_calm {limits : Limits} {instanceId runId : Str} {tokenAllowance : Option Int}
    {acts : List Act}
    (h : EachStep (step limits) (fun s a => Calm s a ∧ Roomy limits s a ∧ StoresAll limits s a)
      (.claimed instanceId runId tokenAllowance) acts) :
    Always (step limits) TellsAll (.claimed instanceId runId tokenAllowance) acts := by
  refine always_of_eachStep
    (J := fun s => Invariant limits s ∧ Supplied s.fan ∧ Short limits s)
    (fun s hs => tellsAll_of_invariant hs.1 hs.2.1 hs.2.2) (fun s a s' hs hg hstep => ?_) ?_ h
  · obtain ⟨hinv, hsup, hshort⟩ := hs
    obtain ⟨hcalm, hroom, hstore⟩ := hg
    exact ⟨move_invariant hinv hcalm (step_move hstep), step_supplied hinv hsup hroom hstep,
      step_short hinv hshort hcalm hstore hstep⟩
  · refine ⟨claimed_invariant limits instanceId runId tokenAllowance, ⟨⟨?_, ?_, ?_⟩, ?_, ?_, ?_⟩, ?_⟩
    · simp [State.claimed, Sys.registered]
    · simp [State.claimed, Sys.registered]
    · simp [State.claimed, Sys.registered]
    · simp [State.claimed, Sys.registered, Covers]
    · simp [State.claimed, Sys.registered, Complete]
    · simp [State.claimed, Sys.registered, Awaited]
    · exact fun hterm => absurd rfl hterm.ne_running

end Interpreter

def served (f : Sys) : Client → Nat
  | .live q => (streamed f q).length
  | .replayed _ served => served.length
  | _ => 0

/-- Two clients take both deltas and the end from their queues, the third is sent
the stored transcript, where the deltas are merged. -/
theorem tellsAll_of_calm_followed :
    letI : Interpreter := asciiTables
    Always (step defaultLimits) TellsAll (.claimed (str "web") (str "r1") none) followed ∧
      (run (step defaultLimits) (.claimed (str "web") (str "r1") none) followed).map (fun s =>
        (s.row.status, (transcript s.fan).length, s.clients.map (served s.fan))) =
          some (str "done", 2, [3, 3, 2]) :=
  ⟨@tellsAll_of_calm asciiTables _ _ _ _ _ (by decide +kernel), by decide +kernel⟩

/-- A request that arrives between the commit of the row and the registration
is told that the run is running, and nothing else. -/
theorem not_tellsAll_starting :
    letI : Interpreter := asciiTables
    ¬ ∀ acts : List Act,
      Always (step ⟨0, 0, 0⟩) TellsAll (.claimed (str "web") (str "r1") none) acts := by
  let _ : Interpreter := asciiTables
  intro h
  obtain ⟨s, hr, hclients, hstatus⟩ : ∃ s, run (step ⟨0, 0, 0⟩)
      (.claimed (str "web") (str "r1") none) [.load 0, .subscribe 0, .attach 0] = some s ∧
      s.clients = [.replayed 0 [runEvent "running"]] ∧ s.row.status = str "running" :=
    ⟨_, rfl, rfl, rfl⟩
  have htells := (h _).final hr (.replayed 0 [runEvent "running"]) (by simp [hclients])
  exact htells.1.ne_running hstatus

end AgentWeb.StreamRace
