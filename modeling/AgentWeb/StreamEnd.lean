import AgentWeb.Steady

namespace AgentWeb.StreamEnd

open PyText PyJson Protocol Replay Transitions Finish Delivery Session StreamFan Steady
open Fanout hiding step step_move Act Move
open Offer hiding step Act

def Awaits (f : Sys) (q : Nat) : Prop :=
  ∀ i, f.terminal = some i → i ∈ owed f q ∨ ∃ c : Chan, f.chans[q]? = some c ∧ i ∈ c.items

def EndsWith (status : Str) (served : List Dict) : Prop :=
  Terminal status ∧ ∃ pre, served = pre ++ [runEvent status] ∧ ∀ e ∈ pre, isRun e = false

/-- A stream goes on without an event about the run, which it has yet to get,
or has ended with one that carries the terminal status. -/
def EndsOnce (s : State) : Prop :=
  ∀ client ∈ s.clients, match client with
    | .live q => ((∀ e ∈ streamed s.fan q, isRun e = false) ∧ Awaits s.fan q) ∨
        EndsWith s.row.status (streamed s.fan q)
    | .replayed _ served => EndsWith s.row.status served
    | _ => True

/-- A subscriber that attaches after the end has room for the terminal event. -/
def Lands (limits : Limits) (s : State) (a : Act) : Prop :=
  ∀ t order sinceSeq, fanAct s a = some (.advance t order) →
    s.fan.tasks[t]? = some (.holding (.subscribe sinceSeq)) →
      ∀ i, s.fan.terminal = some i → i ∈ replayed limits.maxSubscriberQueue s.fan.seen sinceSeq

instance (limits : Limits) (s : State) (a : Act) : Decidable (Lands limits s a) :=
  match hf : fanAct s a with
  | some (.advance t _) =>
      match ht : s.fan.tasks[t]? with
      | some (.holding (.subscribe sinceSeq)) =>
          decidable_of_iff (∀ i ∈ s.fan.terminal,
              i ∈ replayed limits.maxSubscriberQueue s.fan.seen sinceSeq)
            ⟨by
              intro h t' _ since' hf' ht'
              cases hf.symm.trans hf'
              cases ht.symm.trans ht'
              exact h, fun h => h t _ sinceSeq hf ht⟩
      | some (.holding (.broadcast _)) | some (.holding (.closeActive _))
      | some (.holding (.unsubscribe _)) | some (.calling _) | some (.offering _ _ _)
      | some .returned | none => .isTrue (by
          intro t' _ since' hf' ht'
          cases hf.symm.trans hf'
          cases ht.symm.trans ht')
  | some (.call _) | some (.get _) | none => .isTrue (fun _ _ _ hf' => by cases hf.symm.trans hf')

def Awaited (f : Sys) : Prop :=
  ∀ (q : Nat) (c : Chan), f.chans[q]? = some c → ∀ i, f.terminal = some i →
    i ∈ received c ∨ i ∈ owed f q

theorem Awaited.of_quiet {f f' : Sys} (h : Awaited f) (hchans : f'.chans = f.chans)
    (hterm : f'.terminal = f.terminal) (howed : ∀ q, (owed f' q).Perm (owed f q)) : Awaited f' := by
  intro q c hc i hi
  rw [(howed q).mem_iff]
  exact h q c (hchans ▸ hc) i (hterm ▸ hi)

theorem move_awaited {maxsize : Nat} {stage : Stage} {sender : Option Nat} {f f' : Sys}
    {a : Fanout.Act} (ho : Orderly stage sender f) (h : Awaited f)
    (hland : ∀ t order sinceSeq, a = .advance t order →
      f.tasks[t]? = some (.holding (.subscribe sinceSeq)) →
        ∀ i, f.terminal = some i → i ∈ replayed maxsize f.seen sinceSeq)
    (hm : Fanout.Move maxsize f a f') : Awaited f' := by
  cases hm with
  | call call => exact h.of_quiet rfl rfl fun q => by rw [owed_call]
  | lookUp t order call task active ht htask hactive =>
      refine h.of_quiet rfl rfl fun q => owed_quiet ht rfl ?_
      rcases htask with rfl | ⟨rfl, -, -⟩ <;> rfl
  | append t order call event force terminal ht horder hforce =>
      intro q c hc i hi
      have hrole := (ho.role t _ ht).1
      rcases hforce with ⟨-, rfl, rfl⟩ | ⟨-, hcl, rfl, -⟩
      · have hnone := ho.terminal_none fun st hst => by simp [hrole.1] at hst
        simp [hnone] at hi
      · cases hi
        have hnone := (ho.wired.closing ht hcl).2
        have hq : q ∈ order := by
          rcases ho.held q c hc with hq | ⟨-, i, -, hi, -⟩
          · exact horder.symm.subset hq
          · simp [hnone] at hi
        refine .inr ((owed_append ht f.seen.length force order q).symm.subset ?_)
        have hpos := List.count_pos_iff.mpr hq
        exact List.mem_append_right _ (List.mem_replicate.mpr ⟨hpos.ne', rfl⟩)
  | attach t order sinceSeq ht =>
      intro q c hc i hi
      have howed := owed_quiet (q := q) ht rfl (show Thread.returned.owed q = [] from rfl)
      rcases getElem?_attach hc with hc | ⟨-, rfl⟩
      · exact (h q c hc i hi).imp id fun hmem => howed.symm.subset hmem
      · exact .inl (hland t order sinceSeq rfl ht i hi)
  | detach t order q ht => exact h.of_quiet rfl rfl fun q => owed_quiet ht rfl rfl
  | deliver t order event force p queues ht =>
      intro q c' hc' i hi
      obtain ⟨c, hc, rfl⟩ := getElem?_deliver hc'
      have hrole := (ho.role t _ ht).1
      have hterm : f.terminal = some i := hi
      cases force with
      | false =>
          have hstage : stage = .running := hrole
          simp [ho.terminal_none (by simp [hstage])] at hterm
      | true =>
          by_cases hpq : p = q
          · have hevent := (ho.wired.targets event true _ (List.mem_of_getElem? ht)).2.2.2 rfl
            cases hterm.symm.trans hevent
            rw [if_pos hpq]
            exact .inl (List.mem_append_right _ (mem_offer_forced maxsize event c.items))
          · rw [if_neg hpq]
            apply (h q c hc i hi).imp id
            intro hmem
            have howed := (owed_deliver ht q).subset hmem
            rwa [if_neg hpq, List.nil_append] at howed
  | done t order event force ht => exact h.of_quiet rfl rfl fun q => owed_quiet ht rfl rfl
  | get p c event items hc hi =>
      intro q c' hc' i hterm
      obtain ⟨c0, hc0, hrec, -⟩ := getElem?_get hc hi hc'
      rw [hrec]
      exact h q c0 hc0 i hterm

theorem transcript_plain {stage : Stage} {sender : Option Nat} {f : Sys}
    (h : Orderly stage sender f) : ∀ e ∈ transcript f, isRun e = false := by
  intro e he
  obtain ⟨i, hi⟩ := List.getElem?_of_mem he
  rw [transcript, List.getElem?_take] at hi
  split at hi
  next hlt =>
    apply h.plain i e hi
    intro hterm
    rw [hterm, Option.getD_some] at hlt
    exact lt_irrefl _ hlt
  next => simp at hi

theorem streamed_of_ended {stage : Stage} {sender : Option Nat} {f : Sys}
    (h : Orderly stage sender f) {q : Nat} (hq : Ended f q) :
    ∃ finalState pre, stage = .closing finalState ∧
      streamed f q = pre ++ [runEvent finalState] ∧ ∀ e ∈ pre, isRun e = false := by
  obtain ⟨c, i, hc, hi, hmem⟩ := hq
  obtain ⟨finalState, hstage, hseen⟩ := h.final i hi
  obtain ⟨init, hinit⟩ := List.getLast?_eq_some_iff.mp (h.last q c hc i hi hmem)
  refine ⟨finalState, init.filterMap fun i => f.seen[i]?, hstage, ?_, fun e he => ?_⟩
  · simp [streamed, hc, hinit, hseen]
  · obtain ⟨j, hj, he⟩ := List.mem_filterMap.mp he
    apply h.plain j e he
    intro hterm
    cases hi.symm.trans hterm
    have hnd := (h.once q c hc).1
    rw [received, hinit, List.nodup_append, List.nodup_append] at hnd
    exact (List.nodup_append.mp hnd.1.1).2.2 i hj i (by simp) rfl

section Interpreter

variable [Interpreter]

theorem coalesceEvents_plain {events : List Dict} (h : ∀ e ∈ events, isRun e = false)
    (maxEvents : Int) : ∀ e ∈ coalesceEvents events maxEvents, isRun e = false := by
  have hmerged : ∀ e ∈ mergeEvents events, isRun e = false := by
    refine forall_foldl_coalesceStep (fun prev event block _ _ hb => ?_) (by simp) h
    have hdelta := isStr_iff.mp (mergeDelta_eq_some hb).2.2.1
    rw [isRun, hdelta]
    decide
  intro e he
  simp only [coalesceEvents] at he
  split at he
  next => exact hmerged e he
  next =>
    rw [List.mem_append, List.mem_cons] at he
    rcases he with he | rfl | he
    · exact hmerged e (List.mem_of_mem_take he)
    · rfl
    · exact hmerged e (List.mem_of_mem_drop he)

theorem row_of_terminal {limits : Limits} {s : State} (h : Invariant limits s)
    (hrow : Terminal s.row.status) :
    s.row.events = coalesceEvents (transcript s.fan) limits.maxStoredEvents := by
  have hr := h.row
  simp only [RowFits] at hr
  split at hr
  next => exact absurd hr.1 hrow.ne_running
  next => exact absurd hr.1 hrow.ne_running
  next => exact absurd hr.1 hrow.ne_running
  next => exact hr.2.2
  next => exact hr.2.2

theorem endsWith_replayed {limits : Limits} {s : State} (h : Invariant limits s)
    (hrow : Terminal s.row.status) (sinceSeq : Int) :
    EndsWith s.row.status (replayPayloads s.row.events s.row.status sinceSeq) := by
  refine ⟨hrow, _, rfl, fun e he => ?_⟩
  have hplain := coalesceEvents_plain (transcript_plain h.orderly) limits.maxStoredEvents
  rw [← row_of_terminal h hrow] at hplain
  exact hplain e (List.mem_filter.mp he).1

theorem endsWith_streamed {limits : Limits} {s : State} (h : Invariant limits s) {q : Nat}
    (hq : Ended s.fan q) : EndsWith s.row.status (streamed s.fan q) := by
  obtain ⟨finalState, pre, hstage, hserved, hpre⟩ := streamed_of_ended h.orderly hq
  have hr := h.row
  rw [hstage] at hr
  obtain ⟨hstatus, hterm, -⟩ := hr
  rw [← hstatus] at hterm hserved
  exact ⟨hterm, pre, hserved, hpre⟩

theorem endsOnce_of_invariant {limits : Limits} {s : State} (h : Invariant limits s)
    (haw : Awaited s.fan) : EndsOnce s := by
  intro client hc
  have htold := h.told client hc
  cases client with
  | loaded row sinceSeq => trivial
  | attaching row sinceSeq t => trivial
  | replayed sinceSeq served =>
      obtain ⟨hrow, rfl⟩ := htold
      exact endsWith_replayed h hrow sinceSeq
  | live q =>
      by_cases hq : Ended s.fan q
      · exact .inr (endsWith_streamed h hq)
      · refine .inl ⟨fun e he => ?_, fun i hi => ?_⟩
        · by_contra hrun
          exact hq (ended_of_streamed h.orderly he (by simpa using hrun))
        · obtain ⟨c, hc⟩ : ∃ c, s.fan.chans[q]? = some c := ⟨_, List.getElem?_eq_getElem htold⟩
          rcases haw q c hc i hi with hmem | hmem
          · refine .inr ⟨c, hc, (List.mem_append.mp hmem).resolve_left fun htaken => ?_⟩
            exact hq ⟨c, i, hc, hi, htaken⟩
          · exact .inl hmem

theorem step_awaited {limits : Limits} {s s' : State} {a : Act} (h : Invariant limits s)
    (haw : Awaited s.fan) (hg : Lands limits s a) (hstep : step limits s a = some s') :
    Awaited s'.fan := by
  rcases step_fan hstep with heq | heq | ⟨a', ha, hfan⟩
  · rwa [heq]
  · rw [heq]
    exact haw
  · refine move_awaited h.orderly haw (fun t order sinceSeq heq ht => ?_) (Fanout.step_move hfan)
    subst heq
    exact hg t order sinceSeq ha ht

theorem claimed_invariant (limits : Limits) (instanceId runId : Str) (tokenAllowance : Option Int) :
    Invariant limits (.claimed instanceId runId tokenAllowance) where
  orderly := by
    refine ⟨⟨?_, List.nodup_nil, ?_, ?_, Nat.zero_le 1⟩, ?_, ?_, ?_, ?_, ?_, ?_⟩ <;>
      simp [State.claimed, Sys.registered, Once]
  outbox := by simp [State.claimed]
  row := ⟨rfl, rfl, rfl⟩
  told := by simp [State.claimed]

/-- Where every step of a run is calm and a late subscriber has room for the
terminal event, each stream ends once, with the run. -/
theorem endsOnce_of_calm {limits : Limits} {instanceId runId : Str} {tokenAllowance : Option Int}
    {acts : List Act}
    (h : EachStep (step limits) (fun s a => Calm s a ∧ Lands limits s a)
      (.claimed instanceId runId tokenAllowance) acts) :
    Always (step limits) EndsOnce (.claimed instanceId runId tokenAllowance) acts := by
  refine always_of_eachStep (J := fun s => Invariant limits s ∧ Awaited s.fan)
    (fun s hs => endsOnce_of_invariant hs.1 hs.2) (fun s a s' hs hg hstep => ?_) ?_ h
  · exact ⟨move_invariant hs.1 hg.1 (step_move hstep), step_awaited hs.1 hs.2 hg.2 hstep⟩
  · exact ⟨claimed_invariant limits instanceId runId tokenAllowance, by
      intro q c hc
      simp [State.claimed, Sys.registered] at hc⟩

end Interpreter

def deltaLine (text : Str) : Str :=
  str "\x7b\"type\": \"delta\", \"text\": \"" ++ text ++ str "\"\x7d"

def answered : RunOutcome where
  answer := "ab"
  usage := some [(str "input", .int 3), (str "output", .int 2)]
  model := .str "m"
  sawResult := true

def defaultLimits : Limits := ⟨1000, 2000, 65536⟩

/-- Client 0 comes before the first line, client 1 loads the row while the run
goes on and attaches when it is popped, and client 2 comes after the commit. -/
def followed : List Act :=
  [.register, .load 0, .subscribe 0, .attach 0, .attach 0,
    .line (deltaLine "a"), .send, .advance 1 [], .advance 1 [0], .advance 1 [], .advance 1 [],
    .line (deltaLine "b"), .send, .advance 2 [], .take 0, .advance 2 [0], .load 0, .advance 2 [],
    .advance 2 [], .finish answered, .commit, .subscribe 1, .attach 1, .close, .advance 4 [],
    .attach 1, .load 0, .advance 4 [1, 0], .subscribe 2, .advance 4 [], .attach 2, .advance 4 [],
    .advance 4 [], .take 0, .take 0, .take 1, .take 1, .take 1]

theorem endsOnce_of_calm_followed :
    letI : Interpreter := asciiTables
    Always (step defaultLimits) EndsOnce (.claimed (str "web") (str "r1") none) followed ∧
      (run (step defaultLimits) (.claimed (str "web") (str "r1") none) followed).map (fun s =>
        (s.row.status, s.clients.length, (streamed s.fan 0).length, (streamed s.fan 1).length)) =
          some (str "done", 3, 3, 3) :=
  ⟨@endsOnce_of_calm asciiTables _ _ _ _ _ (by decide +kernel), by decide +kernel⟩

/-- A user who presses stop closes the stream of a run that goes on. -/
theorem not_endsOnce_cancelled :
    letI : Interpreter := asciiTables
    ¬ ∀ acts : List Act,
      Always (step ⟨0, 0, 0⟩) EndsOnce (.claimed (str "web") (str "r1") none) acts := by
  let _ : Interpreter := asciiTables
  intro h
  obtain ⟨s, hr, hclients, hserved, hstatus⟩ : ∃ s, run (step ⟨0, 0, 0⟩)
      (.claimed (str "web") (str "r1") none)
      [.register, .load 0, .subscribe 0, .attach 0, .attach 0, .cancel, .advance 1 [],
        .advance 1 [0], .advance 1 [], .take 0] = some s ∧ s.clients = [.live 0] ∧
      streamed s.fan 0 = [cancelEvent] ∧ s.row.status = str "running" :=
    ⟨_, rfl, rfl, rfl, rfl⟩
  have hends := (h _).final hr (.live 0) (by simp [hclients])
  simp only [hserved, hstatus] at hends
  rcases hends with ⟨hplain, -⟩ | ⟨hterm, -⟩
  · exact absurd (hplain cancelEvent (by simp)) (by decide)
  · exact hterm.ne_running rfl

end AgentWeb.StreamEnd
