import AgentWeb.Pump
import AgentWeb.Transcript
import AgentWeb.Resident

namespace AgentWeb.Greeting

open PyText PyJson Protocol Pump Transcript Transitions Resident

inductive Kind
  | process
  | container
  deriving DecidableEq

/-- `_negotiate` and what follows it in `_exec_run_locked`: before the check
whether a hello is due, before the hello is sent, in the loop of `_await_line`,
behind it with `answered` still to be set, before the reply is looked at, before
`alive` and before the submit is written. -/
inductive Stage
  | checking
  | greeting
  | awaiting
  | leaving (reply : Except Exc (Option Dict))
  | negotiating (reply : Except Exc (Option Dict))
  | submitting
  | writing
  | submitted
  | died
  | refused (message : Str)
  | raised (e : Exc)

/-- `_interrupt_on_deadline`: in its wait, before the interrupt, at its end. -/
inductive Watchdog
  | absent
  | waiting
  | expired
  | ended
  deriving DecidableEq

/-- An `exec_run` with its transport. `kill` says whether the interrupt could
kill the harness. The lines that `_await_line` has read are split by whether the
deadline had passed. -/
structure State where
  sandbox : Meta
  stage : Stage := .checking
  watchdog : Watchdog := .absent
  answered : Bool := false
  running : Bool := true
  isOpen : Bool := true
  kill : Option Bool := none
  early : List Str := []
  late : List Str := []

/-- The next statement of `exec_run`; a line that `read_line` gives, or nothing;
the wait of the watchdog sees that `answered` is set, or runs out; the interrupt,
and the death that it has sent for. -/
inductive Act
  | go
  | read (text : Str)
  | none
  | wake
  | expire
  | interrupt (killed : Bool)
  | die

def Up (s : State) : Prop := s.running = true ∧ s.isOpen = true

instance (s : State) : Decidable (Up s) := inferInstanceAs (Decidable (_ ∧ _))

def due (m : Meta) : Bool := !m.greeted && m.handshake.any (·.has capHello)

def State.lines (s : State) : List Str := s.early ++ s.late

def State.hear (s : State) (text : Str) : State :=
  if s.watchdog = .waiting then { s with early := s.early ++ [text] }
  else { s with late := s.late ++ [text] }

/-- `transport.interrupt()`: what either step raises is suppressed. -/
def interrupt (kind : Kind) (killed : Bool) (s : State) : State :=
  { s with
    watchdog := .ended
    kill := some killed
    isOpen := s.isOpen && kind == .process }

section Interpreter

variable [Interpreter]

/-- What `_await_line` makes of a line. -/
def awaited (types : List Str) (line : Str) : Except Exc (Option Dict) :=
  match payloadOf line with
  | .error e => .error e
  | .ok none => .ok none
  | .ok (some payload) => match fetch payload "type" with
    -- an unhashable type cannot be looked up in the set
    | .arr _ | .obj _ => .error .typeError
    | etype => .ok (if types.any (isStr etype) then some payload else none)

def reply (line : Str) : Except Exc (Option Dict) := awaited [str "hello", str "error"] line

def refusal (payload : Dict) : Str :=
  str "harness refused version negotiation: " ++
    pyStr (orElse (fetch payload "message") (.str "version negotiation refused"))

def go (s : State) : Option State :=
  match s.stage with
  | .checking => some (if due s.sandbox then
      { s with stage := .greeting, sandbox := { s.sandbox with greeted := true } }
      else { s with stage := .submitting })
  | .greeting => some (if Up s then { s with stage := .awaiting, watchdog := .waiting }
      else { s with stage := .submitting })
  | .leaving reply => some { s with stage := .negotiating reply, answered := true }
  | .negotiating (.error e) => some { s with stage := .raised e }
  -- no answer: degrade
  | .negotiating (.ok none) => some { s with stage := .submitting }
  | .negotiating (.ok (some payload)) =>
      some (if isStr (fetch payload "type") "error" then
        { s with stage := .refused (refusal payload) } else { s with stage := .submitting })
  | .submitting => some { s with stage := if s.running then .writing else .died }
  | .writing => some { s with stage := if Up s then .submitted else .died }
  | _ => none

def step (kind : Kind) (s : State) : Act → Option State
  | .go => go s
  | .read text => match s.stage with
    | .awaiting => some (match reply text with
      | .ok none => s.hear text
      | verdict => { s.hear text with stage := .leaving verdict })
    | _ => none
  | .none => match s.stage with
    | .awaiting => if Up s then none else some { s with stage := .leaving (.ok none) }
    | _ => none
  | .wake => if s.watchdog = .waiting ∧ s.answered = true then
      some { s with watchdog := .ended } else none
  | .expire => if s.watchdog = .waiting ∧ s.answered = false then
      some { s with watchdog := .expired } else none
  | .interrupt killed => if s.watchdog = .expired then some (interrupt kind killed s) else none
  | .die => if s.kill = some true then some { s with running := false } else none

def Answers (line : Str) : Prop := ∃ payload, reply line = .ok (some payload)

def Greets (line : Str) : Prop :=
  ∃ payload, reply line = .ok (some payload) ∧ isStr (fetch payload "type") "error" = false

inductive Moves (kind : Kind) (s : State) : State → Prop
  | greet (hs : s.stage = .checking) (hd : due s.sandbox = true) :
      Moves kind s { s with stage := .greeting, sandbox := { s.sandbox with greeted := true } }
  | skip (hs : s.stage = .checking) (hd : due s.sandbox = false) :
      Moves kind s { s with stage := .submitting }
  | await (hs : s.stage = .greeting) (hu : Up s) :
      Moves kind s { s with stage := .awaiting, watchdog := .waiting }
  | lost (hs : s.stage = .greeting) (hu : ¬ Up s) : Moves kind s { s with stage := .submitting }
  | hear (text : Str) (hs : s.stage = .awaiting) (hr : reply text = .ok none) :
      Moves kind s (s.hear text)
  | decide (text : Str) (hs : s.stage = .awaiting) (hr : reply text ≠ .ok none) :
      Moves kind s { s.hear text with stage := .leaving (reply text) }
  | ends (hs : s.stage = .awaiting) (hu : ¬ Up s) :
      Moves kind s { s with stage := .leaving (.ok none) }
  | set (r : Except Exc (Option Dict)) (hs : s.stage = .leaving r) :
      Moves kind s { s with stage := .negotiating r, answered := true }
  | raise (e : Exc) (hs : s.stage = .negotiating (.error e)) :
      Moves kind s { s with stage := .raised e }
  | degrade (hs : s.stage = .negotiating (.ok none)) : Moves kind s { s with stage := .submitting }
  | refuse (payload : Dict) (hs : s.stage = .negotiating (.ok (some payload)))
      (he : isStr (fetch payload "type") "error" = true) :
      Moves kind s { s with stage := .refused (refusal payload) }
  | accept (payload : Dict) (hs : s.stage = .negotiating (.ok (some payload)))
      (he : isStr (fetch payload "type") "error" = false) :
      Moves kind s { s with stage := .submitting }
  | alive (hs : s.stage = .submitting) (hr : s.running = true) :
      Moves kind s { s with stage := .writing }
  | gone (hs : s.stage = .submitting) (hr : s.running = false) :
      Moves kind s { s with stage := .died }
  | write (hs : s.stage = .writing) (hu : Up s) : Moves kind s { s with stage := .submitted }
  | fail (hs : s.stage = .writing) (hu : ¬ Up s) : Moves kind s { s with stage := .died }
  | wake (hw : s.watchdog = .waiting) (ha : s.answered = true) :
      Moves kind s { s with watchdog := .ended }
  | expire (hw : s.watchdog = .waiting) (ha : s.answered = false) :
      Moves kind s { s with watchdog := .expired }
  | interrupt (killed : Bool) (hw : s.watchdog = .expired) :
      Moves kind s (Greeting.interrupt kind killed s)
  | die (hk : s.kill = some true) : Moves kind s { s with running := false }

theorem moves_of_go {kind : Kind} {s t : State} (h : go s = some t) : Moves kind s t := by
  cases hs : s.stage with
  | checking =>
      cases hd : due s.sandbox with
      | true =>
          simp only [go, hs, hd, if_true, Option.some.injEq] at h
          exact h ▸ .greet hs hd
      | false =>
          simp only [go, hs, hd, Bool.false_eq_true, if_false, Option.some.injEq] at h
          exact h ▸ .skip hs hd
  | greeting =>
      by_cases hu : Up s
      · simp only [go, hs, if_pos hu, Option.some.injEq] at h
        exact h ▸ .await hs hu
      · simp only [go, hs, if_neg hu, Option.some.injEq] at h
        exact h ▸ .lost hs hu
  | leaving r =>
      simp only [go, hs, Option.some.injEq] at h
      exact h ▸ .set r hs
  | negotiating r =>
      match r with
      | .error e =>
          simp only [go, hs, Option.some.injEq] at h
          exact h ▸ .raise e hs
      | .ok none =>
          simp only [go, hs, Option.some.injEq] at h
          exact h ▸ .degrade hs
      | .ok (some payload) =>
          cases he : isStr (fetch payload "type") "error" with
          | true =>
              simp only [go, hs, he, if_true, Option.some.injEq] at h
              exact h ▸ .refuse payload hs he
          | false =>
              simp only [go, hs, he, Bool.false_eq_true, if_false, Option.some.injEq] at h
              exact h ▸ .accept payload hs he
  | submitting =>
      by_cases hr : s.running = true
      · simp only [go, hs, if_pos hr, Option.some.injEq] at h
        exact h ▸ .alive hs hr
      · simp only [go, hs, if_neg hr, Option.some.injEq] at h
        exact h ▸ .gone hs (Bool.eq_false_iff.mpr hr)
  | writing =>
      by_cases hu : Up s
      · simp only [go, hs, if_pos hu, Option.some.injEq] at h
        exact h ▸ .write hs hu
      · simp only [go, hs, if_neg hu, Option.some.injEq] at h
        exact h ▸ .fail hs hu
  | awaiting | submitted | died | refused | raised =>
      simp only [go, hs, reduceCtorEq] at h

theorem moves_of_step {kind : Kind} {s t : State} {a : Act} (h : step kind s a = some t) :
    Moves kind s t := by
  cases a with
  | go => exact moves_of_go h
  | read text =>
      simp only [step] at h
      split at h
      next hs =>
        split at h
        next hr => exact Option.some.inj h ▸ .hear text hs hr
        next r hr => exact Option.some.inj h ▸ .decide text hs hr
      next => cases h
  | none =>
      simp only [step] at h
      split at h
      next hs =>
        split_ifs at h with hu
        exact Option.some.inj h ▸ .ends hs hu
      next => cases h
  | wake =>
      simp only [step] at h
      split_ifs at h with hw
      exact Option.some.inj h ▸ .wake hw.1 hw.2
  | expire =>
      simp only [step] at h
      split_ifs at h with hw
      exact Option.some.inj h ▸ .expire hw.1 hw.2
  | interrupt killed =>
      simp only [step] at h
      split_ifs at h with hw
      exact Option.some.inj h ▸ .interrupt killed hw
  | die =>
      simp only [step] at h
      split_ifs at h with hk
      exact Option.some.inj h ▸ .die hk

end Interpreter

theorem hear_same (s : State) (text : Str) :
    (s.hear text).stage = s.stage ∧ (s.hear text).watchdog = s.watchdog ∧
      (s.hear text).answered = s.answered ∧ (s.hear text).running = s.running ∧
        (s.hear text).isOpen = s.isOpen ∧ (s.hear text).kill = s.kill := by
  rw [State.hear]
  split <;> exact ⟨rfl, rfl, rfl, rfl, rfl, rfl⟩

theorem hear_stage (s : State) (text : Str) :
    { s.hear text with stage := s.stage } = s.hear text := by
  rw [State.hear]
  split <;> rfl

theorem hear_late {s : State} {text : Str} (h : (s.hear text).late ≠ []) :
    s.late ≠ [] ∨ s.watchdog ≠ .waiting := by
  rw [State.hear] at h
  split_ifs at h with hw
  · exact .inl h
  · exact .inr hw

theorem mem_lines_hear {s : State} {text line : Str} :
    line ∈ (s.hear text).lines ↔ line ∈ s.lines ∨ line = text := by
  rw [State.hear]
  split_ifs
  · simp only [State.lines, List.mem_append, List.mem_singleton]
    exact or_right_comm
  · simp only [State.lines, List.mem_append, List.mem_singleton, or_assoc]

/-- The harness dies of the interrupt alone, which closes what it has of a
container in any case. The watchdog waits or has fired as long as `answered` is
not set, and a line that is late comes after the deadline. -/
structure Timed (kind : Kind) (s : State) : Prop where
  running : s.running = false → s.kill = some true
  isOpen : s.isOpen = true ↔ kind = .process ∨ s.kill = none
  killed : s.kill ≠ none → s.watchdog = .ended
  fresh : s.stage = .checking ∨ s.stage = .greeting →
    s.watchdog = .absent ∧ s.late = [] ∧ s.answered = false
  live : s.stage = .awaiting ∨ (∃ r, s.stage = .leaving r) →
    s.answered = false ∧ (s.watchdog = .waiting ∨ s.watchdog = .expired ∨ s.kill ≠ none)
  late : s.late ≠ [] → s.watchdog = .expired ∨ s.kill ≠ none

theorem Timed.kill_none {kind : Kind} {s : State} (h : Timed kind s) (hw : s.watchdog ≠ .ended) :
    s.kill = none := by
  by_contra hkill
  exact hw (h.killed hkill)

theorem Timed.sent {kind : Kind} {s : State} (h : Timed kind s) (hw : s.watchdog ≠ .absent) :
    s.stage ≠ .checking ∧ s.stage ≠ .greeting :=
  ⟨fun hs => hw (h.fresh (.inl hs)).1, fun hs => hw (h.fresh (.inr hs)).1⟩

theorem timed_hear {kind : Kind} {s : State} (text : Str) {stage : Stage}
    (h : Timed kind s) (hs : s.stage = .awaiting)
    (hstage : stage = .awaiting ∨ ∃ r, stage = .leaving r) :
    Timed kind { s.hear text with stage := stage } := by
  obtain ⟨-, hwatch, hanswered, hrunning, hopen, hkill⟩ := hear_same s text
  obtain ⟨hset, hw⟩ := h.live (.inl hs)
  refine ⟨?_, ?_, ?_, ?_, ?_, ?_⟩
  · simpa only [hrunning, hkill] using h.running
  · simpa only [hopen, hkill] using h.isOpen
  · simpa only [hwatch, hkill] using h.killed
  · intro hno
    rcases hstage with rfl | ⟨r, rfl⟩ <;> simp at hno
  · intro _
    simpa only [hanswered, hwatch, hkill] using And.intro hset hw
  · intro hlate
    simp only [hwatch, hkill]
    rcases hear_late hlate with hold | hnot
    · exact h.late hold
    · exact hw.resolve_left hnot

theorem timed_interrupt {kind : Kind} {s : State} (killed : Bool) (h : Timed kind s)
    (hw : s.watchdog = .expired) : Timed kind (interrupt kind killed s) := by
  have hkill := h.kill_none (by simp [hw])
  have hopen : s.isOpen = true := h.isOpen.mpr (.inr hkill)
  refine ⟨?_, ?_, fun _ => rfl, ?_, ?_, fun _ => .inr nofun⟩
  · intro hr
    cases hkill.symm.trans (h.running hr)
  · simp [interrupt, hopen]
  · intro hs
    cases hw.symm.trans (h.fresh hs).1
  · exact fun hs => ⟨(h.live hs).1, .inr (.inr nofun)⟩

theorem timed_wake {kind : Kind} {s : State} {w : Watchdog} (h : Timed kind s)
    (hw : s.watchdog = .waiting) (hnew : w = .ended ∧ s.answered = true ∨ w = .expired) :
    Timed kind { s with watchdog := w } := by
  have hkill := h.kill_none (by simp [hw])
  refine ⟨h.running, h.isOpen, fun hne => absurd hkill hne, ?_, ?_, ?_⟩
  · intro hs
    cases hw.symm.trans (h.fresh hs).1
  · intro hs
    refine ⟨(h.live hs).1, ?_⟩
    rcases hnew with ⟨-, ha⟩ | rfl
    · cases ha.symm.trans (h.live hs).1
    · exact .inr (.inl rfl)
  · intro hlate
    rcases h.late hlate with hx | hx
    · cases hw.symm.trans hx
    · exact absurd hkill hx

section Interpreter

variable [Interpreter]

theorem timed_of_moves {kind : Kind} {s t : State} (h : Timed kind s) (hm : Moves kind s t) :
    Timed kind t := by
  cases hm with
  | hear text hs hr =>
      rw [← hear_stage]
      exact timed_hear text h hs (.inl hs)
  | decide text hs hr => exact timed_hear text h hs (.inr ⟨_, rfl⟩)
  | interrupt killed hw => exact timed_interrupt killed h hw
  | die hk => exact ⟨fun _ => hk, h.isOpen, h.killed, h.fresh, h.live, h.late⟩
  | greet hs hd =>
      exact ⟨h.running, h.isOpen, h.killed, fun _ => h.fresh (.inl hs), by simp, h.late⟩
  | await hs hu =>
      obtain ⟨hw, hlate, ha⟩ := h.fresh (.inr hs)
      have hkill := h.kill_none (by simp [hw])
      exact ⟨h.running, h.isOpen, fun hne => absurd hkill hne, by simp,
        fun _ => ⟨ha, .inl rfl⟩, fun hne => absurd hlate hne⟩
  | ends hs hu =>
      exact ⟨h.running, h.isOpen, h.killed, by simp, fun _ => h.live (.inl hs), h.late⟩
  | wake hw ha => exact timed_wake h hw (.inl ⟨rfl, ha⟩)
  | expire hw ha => exact timed_wake h hw (.inr rfl)
  | _ => exact ⟨h.running, h.isOpen, h.killed, by simp, by simp, h.late⟩

def Greeted (s : State) : Prop := ∃ line ∈ s.lines, Greets line

/-- What the lines so far and the transport have to do with where `exec_run` is. -/
def Traced (s : State) : Prop :=
  match s.stage with
  | .checking => due s.sandbox = true ∧ Up s ∧ ¬ Greeted s
  | .greeting => Up s ∧ ¬ Greeted s
  | .awaiting => ¬ Greeted s
  | .leaving r | .negotiating r => (r = .ok none → ¬ Up s) ∧ (Greeted s ↔ ∃ payload,
      r = .ok (some payload) ∧ isStr (fetch payload "type") "error" = false)
  | .submitting | .writing | .submitted => Greeted s ∨ ¬ Up s
  | .died => ¬ Up s
  | .refused _ | .raised _ => ¬ Greeted s

theorem greeted_hear {s : State} {text : Str} {stage : Stage} (h : ¬ Greeted s) :
    Greeted { s.hear text with stage := stage } ↔ Greets text := by
  constructor
  · rintro ⟨line, hline, hgreets⟩
    rcases mem_lines_hear.mp hline with hold | rfl
    · exact absurd ⟨line, hold, hgreets⟩ h
    · exact hgreets
  · exact fun hgreets => ⟨text, mem_lines_hear.mpr (.inr rfl), hgreets⟩

theorem traced_down {s t : State} (h : Traced s) (hfresh : s.stage ≠ .checking ∧ s.stage ≠ .greeting)
    (hstage : t.stage = s.stage) (hlines : t.lines = s.lines) (hup : Up t → Up s) : Traced t := by
  have hsame : Greeted t ↔ Greeted s := by rw [Greeted, hlines, Greeted]
  rw [Traced, hstage]
  rw [Traced] at h
  split at h
  next hs => exact absurd hs hfresh.1
  next hs => exact absurd hs hfresh.2
  next => exact hsame.not.mpr h
  next => exact ⟨fun hnone hu => h.1 hnone (hup hu), hsame.trans h.2⟩
  next => exact ⟨fun hnone hu => h.1 hnone (hup hu), hsame.trans h.2⟩
  next => exact h.imp hsame.mpr fun hd hu => hd (hup hu)
  next => exact h.imp hsame.mpr fun hd hu => hd (hup hu)
  next => exact h.imp hsame.mpr fun hd hu => hd (hup hu)
  next => exact fun hu => h (hup hu)
  next => exact hsame.not.mpr h
  next => exact hsame.not.mpr h

theorem traced_of_moves {kind : Kind} {s t : State} (ht : Timed kind s) (h : Traced s)
    (hm : Moves kind s t) : Traced t := by
  cases hm with
  | greet hs hd =>
      rw [Traced, hs] at h
      exact h.2
  | skip hs hd =>
      rw [Traced, hs] at h
      cases h.1.symm.trans hd
  | await hs hu =>
      rw [Traced, hs] at h
      exact h.2
  | lost hs hu =>
      rw [Traced, hs] at h
      exact .inr hu
  | hear text hs hr =>
      rw [Traced, hs] at h
      rw [← hear_stage, hs, Traced, greeted_hear h]
      rintro ⟨payload, hsome, -⟩
      cases hr.symm.trans hsome
  | decide text hs hr =>
      rw [Traced, hs] at h
      exact ⟨fun hnone => absurd hnone hr, greeted_hear h⟩
  | ends hs hu =>
      rw [Traced, hs] at h
      exact ⟨fun _ => hu, iff_of_false h (by simp)⟩
  | set r hs =>
      rw [Traced, hs] at h
      exact h
  | raise e hs =>
      rw [Traced, hs] at h
      exact fun hg => by simpa using h.2.mp hg
  | degrade hs =>
      rw [Traced, hs] at h
      exact .inr (h.1 rfl)
  | refuse payload hs he =>
      rw [Traced, hs] at h
      intro hg
      obtain ⟨payload', heq, hno⟩ := h.2.mp hg
      cases heq
      cases he.symm.trans hno
  | accept payload hs he =>
      rw [Traced, hs] at h
      exact .inl (h.2.mpr ⟨payload, rfl, he⟩)
  | alive hs hr =>
      rw [Traced, hs] at h
      exact h
  | gone hs hr =>
      exact fun hu => by cases hr.symm.trans hu.1
  | write hs hu =>
      rw [Traced, hs] at h
      exact h
  | fail hs hu => exact hu
  | wake hw ha | expire hw ha => exact h
  | interrupt killed hw =>
      have hfresh := ht.sent (by simp [hw])
      exact traced_down h hfresh rfl rfl fun hu => ⟨hu.1, (Bool.and_eq_true_iff.mp hu.2).1⟩
  | die hk =>
      have hover := ht.killed (by simp [hk])
      have hfresh := ht.sent (by simp [hover])
      exact traced_down h hfresh rfl rfl fun hu => by cases hu.1

end Interpreter

/-- Neither `exec_run` up to the submit nor the watchdog goes on, and a harness
that has been killed is dead. -/
structure Settled (s : State) : Prop where
  ended : match s.stage with
    | .submitted | .died | .refused _ | .raised _ => True
    | _ => False
  watchdog : s.watchdog = .ended
  dead : s.kill = some true → s.running = false

def Proceeds (s : State) : Prop := s.stage = .submitted ∧ Up s

section Interpreter

variable [Interpreter]

theorem invariants_of_run {kind : Kind} {m : Meta} {acts : List Act} {s : State}
    (hdue : due m = true) (h : run (step kind) { sandbox := m } acts = some s) :
    Timed kind s ∧ Traced s := by
  have htimed : Timed kind { sandbox := m } :=
    ⟨by simp, by simp, by simp, fun _ => ⟨rfl, rfl, rfl⟩, by simp, by simp⟩
  have htraced : Traced { sandbox := m } := ⟨hdue, ⟨rfl, rfl⟩, by simp [Greeted, State.lines]⟩
  refine run_invariant (I := fun s => Timed kind s ∧ Traced s) ?_ ⟨htimed, htraced⟩ h
  rintro s a t ⟨ht, htr⟩ hstep
  have hm := moves_of_step hstep
  exact ⟨timed_of_moves ht hm, traced_of_moves ht htr hm⟩

/-- After a hello that nothing answers in time the submit is written to a
transport that stays up exactly when the kill of the process is refused and the
hello is answered late. -/
theorem unanswered_proceeds_iff {kind : Kind} {m : Meta} {acts : List Act} {s : State}
    (hdue : due m = true) (h : run (step kind) { sandbox := m } acts = some s) (hs : Settled s)
    (hsilent : ∀ line ∈ s.early, ¬ Answers line) :
    Proceeds s ↔ kind = .process ∧ s.kill = some false ∧ ∃ line ∈ s.late, Greets line := by
  obtain ⟨ht, htr⟩ := invariants_of_run hdue h
  constructor
  · rintro ⟨hstage, hrunning, hopen⟩
    rw [Traced, hstage] at htr
    obtain ⟨line, hline, hgreets⟩ := htr.resolve_right (not_not_intro ⟨hrunning, hopen⟩)
    have hlate : line ∈ s.late := by
      rcases List.mem_append.mp hline with hearly | hlate
      · obtain ⟨payload, hreply, -⟩ := hgreets
        exact absurd ⟨payload, hreply⟩ (hsilent line hearly)
      · exact hlate
    have hkill : s.kill ≠ none := by
      refine (ht.late (List.ne_nil_of_mem hlate)).resolve_left fun hw => ?_
      cases hs.watchdog.symm.trans hw
    refine ⟨(ht.isOpen.mp hopen).resolve_right hkill, ?_, line, hlate, hgreets⟩
    cases hk : s.kill with
    | none => exact absurd hk hkill
    | some killed =>
        cases killed with
        | false => rfl
        | true => cases hrunning.symm.trans (hs.dead hk)
  · rintro ⟨hkind, hkill, line, hline, hgreets⟩
    have hgreeted : Greeted s := ⟨line, List.mem_append_right _ hline, hgreets⟩
    have hup : Up s := by
      refine ⟨?_, ht.isOpen.mpr (.inl hkind)⟩
      by_contra hr
      cases hkill.symm.trans (ht.running (Bool.eq_false_iff.mpr hr))
    refine ⟨?_, hup⟩
    have hended := hs.ended
    cases hstage : s.stage with
    | submitted => rfl
    | died =>
        rw [Traced, hstage] at htr
        exact absurd hup htr
    | refused | raised =>
        rw [Traced, hstage] at htr
        exact absurd hgreeted htr
    | checking | greeting | awaiting | leaving | negotiating | submitting | writing =>
        rw [hstage] at hended
        exact hended.elim

end Interpreter

def advertised : Meta := { lastUsed := 0, handshake := some ⟨1, [capHello]⟩ }

def killed : List Act := [.go, .go, .expire, .interrupt true, .die, .none, .go, .go, .go]

theorem unanswered_proceeds_killed :
    letI : Interpreter := asciiTables
    ∃ s, run (step .process) { sandbox := advertised } killed = some s ∧
      (Proceeds s ↔ Kind.process = .process ∧ s.kill = some false ∧
        ∃ line ∈ s.late, Greets line) := by
  let _ : Interpreter := asciiTables
  have h : run (step .process) { sandbox := advertised } killed = some _ := rfl
  exact ⟨_, h, unanswered_proceeds_iff rfl h ⟨trivial, rfl, fun _ => rfl⟩ nofun⟩

/-- It would have answered the submit. -/
theorem not_proceeds_killed :
    letI : Interpreter := asciiTables
    ¬ ∀ (kind : Kind) (m : Meta) (acts : List Act) (s : State), due m = true →
      run (step kind) { sandbox := m } acts = some s → Settled s →
        (∀ line ∈ s.early, ¬ Answers line) → Proceeds s := by
  let _ : Interpreter := asciiTables
  intro h
  have hproceeds := h .process advertised killed _ rfl rfl ⟨trivial, rfl, fun _ => rfl⟩ nofun
  cases hproceeds.1

end AgentWeb.Greeting
