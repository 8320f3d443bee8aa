import AgentWeb.StreamFan

namespace AgentWeb.Steady

open Attempt PyText PyJson Protocol Replay Sanitize Transitions OnLine Finish Delivery Session StreamFan
open Fanout hiding step step_move Act Move

def transcript (f : Sys) : List Dict := f.seen.take (f.terminal.getD f.seen.length)

theorem transcript_open {f : Sys} (h : f.terminal = none) : transcript f = f.seen := by
  simp [transcript, h]

theorem move_transcript {maxsize : Nat} {stage : Stage} {sender : Option Nat} {f f' : Sys}
    {a : Fanout.Act} (h : Orderly stage sender f) (hrun : stage ≠ .running)
    (hm : Fanout.Move maxsize f a f') :
    transcript f' = transcript f ∧
      ((∀ finalState, stage ≠ .closing finalState) → f'.seen = f.seen) := by
  cases hm with
  | append t order call event force terminal ht horder hforce =>
      have hrole := (h.role t _ ht).1
      rcases hforce with ⟨-, rfl, -⟩ | ⟨-, hc, rfl, st, rfl, -⟩
      · exact absurd hrole.1 hrun
      · refine ⟨?_, fun hno => absurd hrole (hno st)⟩
        simp [transcript, (h.wired.closing ht hc).2]
  | _ => exact ⟨rfl, fun _ => rfl⟩

theorem idle_quiet {s : State} (h : Orderly s.stage s.sender s.fan) (hidle : s.idle) {t : Nat}
    {task : Thread} (ht : s.fan.tasks[t]? = some task) : isWorker task = false := by
  cases hw : isWorker task with
  | false => rfl
  | true =>
      have hsender := (h.role t task ht).2 hw
      rw [State.idle, hsender, Option.all_some, ht] at hidle
      cases task with
      | returned => exact absurd hw (by simp [isWorker])
      | _ => simp at hidle

section Interpreter

variable [Interpreter]

omit [Interpreter] in
theorem move_chans_length {maxsize : Nat} {f f' : Sys} {a : Fanout.Act}
    (hm : Fanout.Move maxsize f a f') : f.chans.length ≤ f'.chans.length := by
  cases hm with
  | attach t order sinceSeq ht => simp
  | deliver t order event force q queues ht => simp
  | get q c event items hc hi => simp
  | _ => exact le_rfl

theorem coalesceEvents_nil (maxEvents : Int) : coalesceEvents [] maxEvents = [] :=
  coalesceEvents_of_le (by simp only [mergeEvents, List.foldl_nil, List.length_nil]; omega)

def RowFits (limits : Limits) (stage : Stage) (row : Row) (f : Sys) : Prop :=
  match stage with
  | .starting => row.status = str "running" ∧ row.events = [] ∧ f.seen = []
  | .running => row.status = str "running" ∧ row.events = []
  | .finishing _ finalState events =>
      row.status = str "running" ∧ row.events = [] ∧ Terminal finalState ∧ events.getD [] = f.seen
  | .written finalState | .closing finalState =>
      row.status = finalState ∧ Terminal finalState ∧
        row.events = coalesceEvents (transcript f) limits.maxStoredEvents

theorem RowFits.move {limits : Limits} {maxsize : Nat} {stage : Stage} {sender : Option Nat}
    {row : Row} {f f' : Sys} {a : Fanout.Act} (h : RowFits limits stage row f)
    (ho : Orderly stage sender f) (hm : Fanout.Move maxsize f a f') : RowFits limits stage row f' := by
  cases stage with
  | starting =>
      obtain ⟨hstatus, hevents, hseen⟩ := h
      exact ⟨hstatus, hevents, ((move_transcript ho (by simp) hm).2 (by simp)).trans hseen⟩
  | running => exact h
  | finishing outcome finalState events =>
      obtain ⟨hstatus, hevents, hterm, hseen⟩ := h
      exact ⟨hstatus, hevents, hterm, hseen.trans ((move_transcript ho (by simp) hm).2 (by simp)).symm⟩
  | written finalState =>
      obtain ⟨hstatus, hterm, hevents⟩ := h
      exact ⟨hstatus, hterm, by rw [hevents, (move_transcript ho (by simp) hm).1]⟩
  | closing finalState =>
      obtain ⟨hstatus, hterm, hevents⟩ := h
      exact ⟨hstatus, hterm, by rw [hevents, (move_transcript ho (by simp) hm).1]⟩

theorem RowFits.terminal {limits : Limits} {stage : Stage} {row : Row} {f : Sys}
    (h : RowFits limits stage row f) (hrow : row.status ≠ str "running") : Terminal row.status := by
  cases stage with
  | starting => exact absurd h.1 hrow
  | running => exact absurd h.1 hrow
  | finishing outcome finalState events => exact absurd h.1 hrow
  | written finalState => exact h.1 ▸ h.2.1
  | closing finalState => exact h.1 ▸ h.2.1

/-- What a request has read of the row is still true of it, unless it read it
before the end of the run, and its queue is there. -/
def Told (row : Row) (f : Sys) : Client → Prop
  | .loaded row' _ | .attaching row' _ _ => row'.status = str "running" ∨ row' = row
  | .live q => q < f.chans.length
  | .replayed sinceSeq served =>
      Terminal row.status ∧ served = replayPayloads row.events row.status sinceSeq

omit [Interpreter] in
theorem Told.mono {row : Row} {f f' : Sys} (hlen : f.chans.length ≤ f'.chans.length)
    {client : Client} (h : Told row f client) : Told row f' client := by
  cases client with
  | live q => exact lt_of_lt_of_le h hlen
  | _ => exact h

omit [Interpreter] in
theorem told_set {row : Row} {f : Sys} {clients : List Client} (h : ∀ client ∈ clients, Told row f client)
    {k : Nat} {client : Client} (hc : Told row f client) :
    ∀ c ∈ clients.set k client, Told row f c := by
  intro c hmem
  rcases List.mem_or_eq_of_mem_set hmem with hmem | rfl
  · exact h c hmem
  · exact hc

structure Invariant (limits : Limits) (s : State) : Prop where
  orderly : Orderly s.stage s.sender s.fan
  outbox : ∀ payload ∈ s.outbox, isRun payload = false
  row : RowFits limits s.stage s.row s.fan
  told : ∀ client ∈ s.clients, Told s.row s.fan client

def Overspends (run : ActiveRun) (line : Str) : Prop :=
  ∃ (event : ProtocolEvent) (run' : ActiveRun) (excess : Int × Int),
    parseLine line = .ok (some event) ∧ acceptLine run event = .ok (run', true) ∧
      notifyKind event = some (str "usage") ∧
        overspent run' (fetch event.data "data") = .ok (some excess)

/-- Nobody cancels the run, it does not overspend, the ledger takes its usage,
and a request that finds it gone has read the final row. -/
def Calm (s : State) : Act → Prop
  | .cancel => s.fan.active = true → s.row.status ≠ str "running"
  | .line line => ¬ Overspends s.run line
  | .commit => ∀ outcome finalState events, s.stage = .finishing outcome finalState events →
      ∃ event, recordUsage outcome = .ok event
  | .attach k => ∀ row sinceSeq t sinceSeq', s.clients[k]? = some (.attaching row sinceSeq t) →
      s.fan.tasks[t]? = some (.calling (.subscribe sinceSeq')) → s.fan.active = false →
        row.status ≠ str "running"
  | _ => True

def overspends (run : ActiveRun) (line : Str) : Bool :=
  match parseLine line with
  | .ok (some event) => match acceptLine run event with
    | .ok (run', true) => notifyKind event == some (str "usage") &&
        match overspent run' (fetch event.data "data") with
        | .ok (some _) => true
        | _ => false
    | _ => false
  | _ => false

theorem overspends_iff {run : ActiveRun} {line : Str} :
    overspends run line ↔ Overspends run line := by
  constructor
  · intro h
    rw [overspends] at h
    split at h
    next event hp =>
      split at h
      next run' ha =>
        rw [Bool.and_eq_true, beq_iff_eq] at h
        obtain ⟨hk, ho⟩ := h
        split at ho
        next excess hover => exact ⟨event, run', excess, hp, ha, hk, hover⟩
        next => simp at ho
      next => simp at h
    next => simp at h
  · rintro ⟨event, run', excess, hp, ha, hk, ho⟩
    simp [overspends, hp, ha, hk, ho]

theorem calm_attach_iff {s : State} {k : Nat} {row : Row} {sinceSeq : Int} {t : Nat}
    (h : s.clients[k]? = some (.attaching row sinceSeq t)) :
    Calm s (.attach k) ↔ ∀ sinceSeq', s.fan.tasks[t]? = some (.calling (.subscribe sinceSeq')) →
      s.fan.active = false → row.status ≠ str "running" := by
  constructor
  · exact fun hc sinceSeq' => hc row sinceSeq t sinceSeq' h
  · intro hc row' since t' sinceSeq' h'
    cases h.symm.trans h'
    exact hc sinceSeq'

instance (s : State) : (a : Act) → Decidable (Calm s a)
  | .cancel => inferInstanceAs (Decidable (_ → _))
  | .line line => decidable_of_iff (¬ overspends s.run line) (not_congr overspends_iff)
  | .commit =>
      match h : s.stage with
      | .finishing outcome _ _ =>
          match hu : recordUsage outcome with
          | .ok event => .isTrue (by simp [Calm, h, hu])
          | .error _ => .isFalse (by simp [Calm, h, hu])
      | .starting | .running | .written _ | .closing _ => .isTrue (by simp [Calm, h])
  | .attach k =>
      match h : s.clients[k]? with
      | some (.attaching row sinceSeq t) =>
          match ht : s.fan.tasks[t]? with
          | some (.calling (.subscribe _)) =>
              decidable_of_iff (s.fan.active = false → row.status ≠ str "running")
                (by simp [calm_attach_iff h, ht])
          | some (.calling (.broadcast _)) | some (.calling (.closeActive _))
          | some (.calling (.unsubscribe _)) | some (.holding _) | some (.offering _ _ _)
          | some .returned | none => .isTrue (by simp [calm_attach_iff h, ht])
      | some (.loaded _ _) | some (.live _) | some (.replayed _ _) | none =>
          .isTrue (by simp [Calm, h])
  | .register | .sandboxFails _ | .send | .finish _ | .close | .load _ | .subscribe _ | .take _
  | .leave _ | .advance _ _ => .isTrue trivial

theorem isRun_linePayload (event : ProtocolEvent) (maxBytes : Int) :
    isRun (sanitizeEvent (linePayload event) maxBytes) = false := by
  rw [isRun, fetch_sanitizeEvent _ _ (by decide) (by decide)]
  have htype : fetch (linePayload event) "type" = .str event.type.name := rfl
  rw [htype]
  cases event.type <;> decide

theorem onLine_plain {maxBytes : Int} {run : ActiveRun} {line : Str} (h : ¬ Overspends run line) :
    ∀ payload ∈ (onLine maxBytes run line).2, isRun payload = false := by
  rw [onLine]
  split
  next event hp =>
    split
    next run' hacc =>
      split
      next r hr =>
        have hplain : ∀ payload ∈ [sanitizeEvent (linePayload event) maxBytes],
            isRun payload = false := by
          simp [isRun_linePayload]
        simp only [relayEvent] at hr
        split at hr
        next =>
          cases hr
          exact hplain
        next =>
          split at hr
          next hkind =>
            obtain ⟨m, hm, rfl⟩ := map_eq_ok.mp hr
            obtain ⟨excess, ho, rfl⟩ := map_eq_ok.mp hm
            cases excess with
            | none => exact hplain
            | some excess => exact absurd ⟨event, run', excess, hp, hacc, hkind, ho⟩ h
          next =>
            cases hr
            exact hplain
      next => simp
    next => simp
    next => simp
  next => simp

theorem Invariant.fan {limits : Limits} {maxsize : Nat} {s : State} (h : Invariant limits s)
    {clients : List Client} {f : Sys} {a : Fanout.Act} (hcall : ∀ call, a ≠ .call call)
    (hopen : ∀ q, a = .get q → ¬ Ended s.fan q) (hstep : Fanout.step maxsize s.fan a = some f)
    (htold : (∀ client ∈ s.clients, Told s.row f client) → ∀ client ∈ clients, Told s.row f client) :
    Invariant limits { s with fan := f, clients := clients } := by
  have hm := Fanout.step_move hstep
  exact ⟨move_orderly h.orderly hcall hopen hm, h.outbox, h.row.move h.orderly hm,
    htold fun client hc => (h.told client hc).mono (move_chans_length hm)⟩

theorem move_invariant {limits : Limits} {s s' : State} {a : Act} (h : Invariant limits s)
    (hg : Calm s a) (hm : Move limits s a s') : Invariant limits s' := by
  have ho := h.orderly
  have hr := h.row
  cases hm with
  | register hstage =>
      rw [hstage] at ho hr
      exact ⟨ho.register, h.outbox, ⟨hr.1, hr.2.1⟩, h.told⟩
  | sandboxFails message outcome hstage =>
      rw [hstage] at ho hr
      refine ⟨ho.restage (by simp) fun t task ht => ho.quiet (by simp) (by simp) ht, h.outbox, ?_, h.told⟩
      exact ⟨hr.1, hr.2.1, runStatus_terminal outcome, hr.2.2.symm⟩
  | line line hstage hidle hout => exact ⟨ho, onLine_plain hg, hr, h.told⟩
  | send payload outbox hstage hout hidle =>
      have hplain := h.outbox payload (by simp [hout])
      have hre : Orderly s.stage (some s.fan.tasks.length) s.fan :=
        ho.restage (by simp [hstage]) fun t task ht => idle_quiet ho hidle ht
      refine ⟨hre.call ⟨hstage, hplain⟩ fun _ => rfl, fun p hp => h.outbox p ?_, hr, h.told⟩
      rw [hout]
      exact List.mem_cons_of_mem _ hp
  | cancel hactive hrow => exact absurd hrow (hg hactive)
  | refuse hno => exact h
  | finish outcome outcome' hstage hidle hout =>
      have hnone := ho.terminal_none (by simp [hstage])
      rw [hstage] at hr
      refine ⟨ho.restage (by simp [hstage]) fun t task ht => idle_quiet ho hidle ht, h.outbox, ?_,
        h.told⟩
      exact ⟨hr.1, hr.2, runStatus_terminal outcome, rfl⟩
  | commit outcome finalState events hstage =>
      have hnone := ho.terminal_none (by simp [hstage])
      rw [hstage] at ho hr
      obtain ⟨hstatus, hevents, hterm, hseen⟩ := hr
      refine ⟨ho.restage (by simp) fun t task ht => ho.quiet (by simp) (by simp) ht, h.outbox,
        ⟨rfl, hterm, ?_⟩, fun client hc => ?_⟩
      · -- nothing was appended since the snapshot
        rw [transcript_open hnone, ← hseen]
        cases events with
        | some events => rfl
        | none => exact hevents.trans (coalesceEvents_nil _).symm
      · have htold := h.told client hc
        cases client with
        | loaded row sinceSeq => exact .inl (htold.elim id fun heq => heq ▸ hstatus)
        | attaching row sinceSeq t => exact .inl (htold.elim id fun heq => heq ▸ hstatus)
        | live q => trivial
        | replayed sinceSeq served => exact absurd hstatus htold.1.ne_running
  | rollback outcome finalState events hstage hraise => exact absurd (hg _ _ _ hstage) hraise
  | close finalState hstage =>
      rw [hstage] at ho hr
      have hre : Orderly (.closing finalState) (some s.fan.tasks.length) s.fan :=
        ho.restage (by simp) fun t task ht => ho.quiet (by simp) (by simp) ht
      exact ⟨hre.call rfl fun _ => rfl, h.outbox, hr, h.told⟩
  | load sinceSeq =>
      refine ⟨ho, h.outbox, hr, fun client hc => ?_⟩
      rcases List.mem_append.mp hc with hc | hc
      · exact h.told client hc
      · rw [List.mem_singleton.mp hc]
        exact .inr rfl
  | subscribe k row sinceSeq hclient =>
      have htold := h.told _ (List.mem_of_getElem? hclient)
      exact ⟨ho.call trivial (by simp [isWorker]), h.outbox, hr, told_set h.told htold⟩
  | lookUp k t row sinceSeq sinceSeq' client fan hclient ht hresult hfan =>
      apply h.fan (by simp) (by simp) hfan
      intro hall
      apply told_set hall
      have htold := h.told _ (List.mem_of_getElem? hclient)
      rcases hresult with rfl | ⟨hactive, rfl⟩
      · exact htold
      · have hrow := hg row sinceSeq t sinceSeq' hclient ht hactive
        have heq := htold.resolve_left hrow
        rw [heq] at hrow ⊢
        exact ⟨hr.terminal hrow, rfl⟩
  | attach k t row sinceSeq sinceSeq' fan hclient ht hfan =>
      have hlive : Told s.row fan (.live s.fan.chans.length) := by
        simp only [Fanout.step, ht, Option.bind_some, advance, Option.some.injEq] at hfan
        subst hfan
        simp [Told]
      exact h.fan (by simp) (by simp) hfan fun hall => told_set hall hlive
  | take k q fan hclient hopen hfan =>
      refine h.fan (by simp) (fun p hp hended => ?_) hfan id
      cases hp
      rw [streamed_ended ho hended] at hopen
      cases hopen
  | leave k q hclient hended =>
      obtain ⟨e, he, hrun⟩ := List.any_eq_true.mp hended
      exact ⟨ho.call (ended_of_streamed ho he hrun) (by simp [isWorker]), h.outbox, hr, h.told⟩
  | advance t order task fan ht htask hfan => exact h.fan (by simp) (by simp) hfan id

end Interpreter

end AgentWeb.Steady
