import AgentWeb.Offer
import AgentWeb.OnLine

namespace AgentWeb.Relaying

open Attempt PyText PyFloat PyJson PyNumber Protocol Sanitize OnLine Offer

/-- `str()` of the numbers in a message. An `int` of too many digits has none. -/
def writable : PyNum → Bool
  | .int i => (decimal i.natAbs).length ≤ intMaxStrDigits
  | .float _ => true

def describe (xs : List PyNum) : Except Exc Unit :=
  if xs.all writable then .ok () else .error .valueError

/-- `SeqTracker.check` with the text it makes of an anomaly. What has been counted
stays so when the text cannot be made. -/
def record (t : SeqTracker) : Json → SeqTracker × Except Exc Unit
  | .null => (t, .ok ())
  | v => match add t.last (.int 1) with
    | .error e => (t, .error e)
    | .ok expected => match numOf v with
      | none => (t, .error .typeError)
      | some seq =>
          if eq seq expected then ({ t with last := seq }, .ok ())
          else if le seq t.last then
            ({ t with reordered := t.reordered + 1 }, describe [seq, t.last])
          else match sub seq expected with
            | .error e => (t, .error e)
            | .ok missing => match add t.gaps missing with
              | .error e => (t, .error e)
              | .ok gaps =>
                  ({ t with gaps := gaps, last := seq }, describe [expected, seq, missing])

/-- An active run with the events it has seen and the queues of its subscribers. -/
structure Live where
  run : ActiveRun
  seen : List Dict
  subscribers : List (List Dict)

structure Limits where
  maxEventBytes : Int
  subscriberQueueSize : Nat

def offerAll (limits : Limits) (payloads : List Dict) (items : List Dict) : List Dict :=
  payloads.foldl (fun items payload => (offer limits.subscriberQueueSize false payload items).1) items

def broadcast (limits : Limits) (s : Live) (payload : Dict) : Live :=
  { s with
    seen := s.seen ++ [payload]
    subscribers := s.subscribers.map fun items =>
      (offer limits.subscriberQueueSize false payload items).1 }

section

variable [Interpreter]

/-- `_meter_live_usage`. A run that has overspent is stopped, and what that comes to is
the business of its runner. -/
def meter (limits : Limits) (stop : Except Exc Unit) (s : Live) (data : Json) :
    Live × Except Exc Unit :=
  match overspent s.run data with
  | .error e => (s, .error e)
  | .ok none => (s, .ok ())
  | .ok (some (spent, allowance)) =>
      (broadcast limits { s with run := { s.run with budgetExceeded := true } }
        (budgetEvent spent allowance), stop)

def relay (limits : Limits) (stop : Except Exc Unit) (s : Live) (event : ProtocolEvent) :
    Live × Except Exc Unit :=
  let data := fetch event.data "data"
  let r :=
    if notifyKind event = some (str "ask") then ({ s with run := rememberAsk s.run data }, .ok ())
    else if notifyKind event = some (str "usage") then meter limits stop s data
    else (s, .ok ())
  match r.2 with
  | .error e => (r.1, .error e)
  | .ok () =>
      (broadcast limits r.1 (sanitizeEvent (linePayload event) limits.maxEventBytes), .ok ())

def mislabelled (run : ActiveRun) (event : ProtocolEvent) : Bool :=
  match event.runId with
  | .null => false
  | v => !isStr v run.runId

/-- `_on_line`, with what it raises. -/
def onLine (limits : Limits) (stop : Except Exc Unit) (s : Live) (line : Str) :
    Live × Except Exc Unit :=
  match parseLine line with
  | .error e => (s, .error e)
  | .ok none => (s, .ok ())
  | .ok (some event) =>
      if event.type.isControl || mislabelled s.run event then (s, .ok ())
      else
        let r := record s.run.seq event.seq
        let s := { s with run := { s.run with seq := r.1 } }
        match r.2 with
        | .error e => (s, .error e)
        | .ok () => relay limits stop s event

end

def Mix : PyNum → PyNum → Prop
  | .int _, .int _ => True
  | x, y => (∃ f, toFloat x = .ok f) ∧ ∃ f, toFloat y = .ok f

theorem add_ok_iff (x y : PyNum) : (∃ z, add x y = .ok z) ↔ Mix x y := by
  cases x <;> cases y <;> simp [add, Mix, exists_bind_ok]

theorem sub_ok_iff (x y : PyNum) : (∃ z, sub x y = .ok z) ↔ Mix x y := by
  cases x <;> cases y <;> simp [sub, Mix, exists_bind_ok]

theorem mix_one (x : PyNum) : Mix x (.int 1) := by
  cases x with
  | int i => trivial
  | float x =>
      refine ⟨⟨x, rfl⟩, ofInt 1, ?_⟩
      rw [toFloat, if_pos (by rfl)]

/-- A `seq` that can be counted: none, the number that comes next, one that came before,
or one with a gap before it. Each anomaly is put into words. -/
def Countable (t : SeqTracker) (v : Json) : Prop :=
  v = .null ∨ ∃ expected seq, add t.last (.int 1) = .ok expected ∧ numOf v = some seq ∧
    (eq seq expected ∨ le seq t.last ∧ [seq, t.last].all writable ∨
      ¬ le seq t.last ∧ Mix seq expected ∧ ∀ missing, sub seq expected = .ok missing →
        Mix t.gaps missing ∧ [expected, seq, missing].all writable)

theorem describe_ok_iff (xs : List PyNum) : describe xs = .ok () ↔ xs.all writable := by
  rw [describe]
  split
  next h => exact iff_of_true rfl h
  next h => exact iff_of_false (by simp) h

theorem record_number {t : SeqTracker} {v : Json} (hv : v ≠ .null) {expected : PyNum}
    (h : add t.last (.int 1) = .ok expected) : record t v = match numOf v with
      | none => (t, .error .typeError)
      | some seq =>
          if eq seq expected then ({ t with last := seq }, .ok ())
          else if le seq t.last then
            ({ t with reordered := t.reordered + 1 }, describe [seq, t.last])
          else match sub seq expected with
            | .error e => (t, .error e)
            | .ok missing => match add t.gaps missing with
              | .error e => (t, .error e)
              | .ok gaps =>
                  ({ t with gaps := gaps, last := seq }, describe [expected, seq, missing]) := by
  cases v <;> simp only [record, h]
  exact absurd rfl hv

theorem expected_ok (t : SeqTracker) : ∃ expected, add t.last (.int 1) = .ok expected :=
  (add_ok_iff t.last (.int 1)).mpr (mix_one t.last)

theorem describe_cases (xs : List PyNum) :
    describe xs = .ok () ∨ describe xs = .error .valueError := by
  rw [describe]
  split
  next => exact .inl rfl
  next => exact .inr rfl

theorem check_record (t : SeqTracker) (v : Json) :
    (∃ anomaly, t.check v = .ok ((record t v).1, anomaly) ∧
      ((record t v).2 = .ok () ∨ (record t v).2 = .error .valueError)) ∨
    ∃ e, t.check v = .error e ∧ record t v = (t, .error e) := by
  obtain ⟨expected, hexpected⟩ := expected_ok t
  by_cases hv : v = .null
  · subst hv
    exact .inl ⟨false, rfl, .inl rfl⟩
  have hcheck : t.check v = match numOf v with
      | none => .error .typeError
      | some seq =>
          if eq seq expected then .ok ({ t with last := seq }, false)
          else if le seq t.last then .ok ({ t with reordered := t.reordered + 1 }, true)
          else do
            let missing ← sub seq expected
            let gaps ← add t.gaps missing
            return ({ t with gaps := gaps, last := seq }, true) := by
    cases v <;> simp only [SeqTracker.check, hexpected, ok_bind] <;> first | rfl | exact absurd rfl hv
  rw [record_number hv hexpected, hcheck]
  cases hnum : numOf v with
  | none => exact .inr ⟨_, rfl, rfl⟩
  | some seq =>
      dsimp only
      split_ifs
      · exact .inl ⟨false, rfl, .inl rfl⟩
      · exact .inl ⟨true, rfl, describe_cases _⟩
      · cases hsub : sub seq expected with
        | error e => exact .inr ⟨e, rfl, rfl⟩
        | ok missing =>
            cases hadd : add t.gaps missing with
            | error e => exact .inr ⟨e, by simp [hadd], by simp [hadd]⟩
            | ok gaps => exact .inl ⟨true, by simp [hadd], by simpa [hadd] using describe_cases _⟩

theorem check_of_record {t : SeqTracker} {v : Json} (h : (record t v).2 = .ok ()) :
    ∃ anomaly, t.check v = .ok ((record t v).1, anomaly) := by
  rcases check_record t v with ⟨anomaly, hcheck, -⟩ | ⟨e, -, hrecord⟩
  · exact ⟨anomaly, hcheck⟩
  · rw [hrecord] at h
    cases h

theorem record_ok_iff (t : SeqTracker) (v : Json) : (record t v).2 = .ok () ↔ Countable t v := by
  obtain ⟨expected, hexpected⟩ := expected_ok t
  have hcount : Countable t v ↔ v = .null ∨ ∃ seq, numOf v = some seq ∧
      (eq seq expected ∨ le seq t.last ∧ [seq, t.last].all writable ∨
        ¬ le seq t.last ∧ Mix seq expected ∧ ∀ missing, sub seq expected = .ok missing →
          Mix t.gaps missing ∧ [expected, seq, missing].all writable) := by
    simp only [Countable, hexpected, Except.ok.injEq, exists_and_left, exists_eq_left']
  rw [hcount]
  by_cases hnull : v = .null
  · subst hnull
    exact iff_of_true rfl (.inl rfl)
  rw [record_number hnull hexpected]
  simp only [hnull, false_or]
  cases hnum : numOf v with
  | none => simp
  | some seq =>
      simp only [Option.some.injEq, exists_eq_left']
      by_cases heq : eq seq expected
      · simp [heq]
      · by_cases hle : le seq t.last
        · simp [heq, hle, describe_ok_iff]
        · simp only [heq, hle, if_false, false_or, false_and, not_false_eq_true, true_and,
            Bool.false_eq_true]
          rw [← sub_ok_iff]
          cases hsub : sub seq expected with
          | error e => simp
          | ok missing =>
              simp only [Except.ok.injEq, forall_eq', exists_eq', true_and]
              rw [← add_ok_iff]
              cases hadd : add t.gaps missing with
              | error e => simp
              | ok gaps => simp [describe_ok_iff]

section

variable [Interpreter]

omit [Interpreter] in
theorem acceptLine_dropped {run : ActiveRun} {event : ProtocolEvent}
    (h : event.type.isControl || mislabelled run event) : acceptLine run event = .ok (run, false) := by
  by_cases hcontrol : event.type.isControl
  · rw [acceptLine, if_pos hcontrol]
  · have hid : mislabelled run event := by simpa [hcontrol] using h
    rw [mislabelled] at hid
    split at hid
    next => cases hid
    next hnull => exact acceptLine_foreign hnull (by simpa using hid)

omit [Interpreter] in
theorem acceptLine_own {run : ActiveRun} {event : ProtocolEvent}
    (h : ¬ (event.type.isControl || mislabelled run event))
    (hrec : (record run.seq event.seq).2 = .ok ()) :
    acceptLine run event = .ok ({ run with seq := (record run.seq event.seq).1 }, true) := by
  obtain ⟨anomaly, hcheck⟩ := check_of_record hrec
  rw [Bool.not_eq_true, Bool.or_eq_false_iff] at h
  obtain ⟨hcontrol, hid⟩ := h
  rw [mislabelled] at hid
  simp only [acceptLine, hcontrol, hcheck, map_ok, Bool.false_eq_true, if_false]
  split
  next => rfl
  next hnull =>
    have hown : isStr event.runId run.runId := by
      split at hid
      next hr => exact absurd hr hnull
      next => simpa using hid
    rw [if_pos hown]

theorem relay_usage (limits : Limits) (stop : Except Exc Unit) (s : Live) {event : ProtocolEvent}
    (husage : notifyKind event = some (str "usage")) :
    relay limits stop s event = match overspent s.run (fetch event.data "data") with
      | .error e => (s, .error e)
      | .ok none =>
          (broadcast limits s (sanitizeEvent (linePayload event) limits.maxEventBytes), .ok ())
      | .ok (some (spent, allowance)) =>
          let notified := broadcast limits { s with run := { s.run with budgetExceeded := true } }
            (budgetEvent spent allowance)
          match stop with
          | .error e => (notified, .error e)
          | .ok () => (broadcast limits notified
              (sanitizeEvent (linePayload event) limits.maxEventBytes), .ok ()) := by
  have hask : notifyKind event ≠ some (str "ask") := by simp [husage]
  simp only [relay, if_neg hask, if_pos husage, meter]
  cases overspent s.run (fetch event.data "data") with
  | error e => rfl
  | ok excess => rcases excess with - | ⟨spent, allowance⟩ <;> rfl

theorem relay_agrees {limits : Limits} {s : Live} {event : ProtocolEvent}
    (h : (relay limits (.ok ()) s event).2 = .ok ()) :
    ∃ r, relayEvent limits.maxEventBytes s.run event = .ok r ∧
      (relay limits (.ok ()) s event).1.run = r.1 ∧
        (relay limits (.ok ()) s event).1.seen = s.seen ++ r.2 := by
  by_cases husage : notifyKind event = some (str "usage")
  · have hask : notifyKind event ≠ some (str "ask") := by simp [husage]
    rw [relay_usage limits _ s husage] at h ⊢
    simp only [relayEvent, if_neg hask, if_pos husage, meterLiveUsage]
    cases hover : overspent s.run (fetch event.data "data") with
    | error e => simp [hover] at h
    | ok excess => rcases excess with - | ⟨spent, allowance⟩ <;> simp [broadcast]
  · by_cases hask : notifyKind event = some (str "ask") <;>
      simp [relay, relayEvent, hask, husage, broadcast]

/-- Nothing is raised, and the event is put down once and offered to each subscriber. A
notice that the budget is spent may come before it. -/
def Relayed (limits : Limits) (s : Live) (event : ProtocolEvent) (r : Live × Except Exc Unit) :
    Prop :=
  r.2 = .ok () ∧ ∃ notices : List Dict,
    (∀ n ∈ notices, ∃ spent allowance, n = budgetEvent spent allowance) ∧
    r.1.seen = s.seen ++ (notices ++ [sanitizeEvent (linePayload event) limits.maxEventBytes]) ∧
    r.1.subscribers = s.subscribers.map
      (offerAll limits (notices ++ [sanitizeEvent (linePayload event) limits.maxEventBytes]))

/-- A usage snapshot that can be metered: while the run has an allowance to spend its
numbers are ones for `int()`, and a run that has overspent can be stopped. -/
def Meterable (run : ActiveRun) (event : ProtocolEvent) (stop : Except Exc Unit) : Prop :=
  notifyKind event = some (str "usage") → ∀ usage, fetch event.data "data" = .obj usage →
    ∀ allowance, run.tokenAllowance = some allowance → run.budgetExceeded = false →
      ∃ input output, usageInt usage "input" = .ok input ∧ usageInt usage "output" = .ok output ∧
        (allowance < input + output → stop = .ok ())

theorem relayed_broadcast (limits : Limits) (s : Live) (event : ProtocolEvent) :
    Relayed limits s event
      (broadcast limits s (sanitizeEvent (linePayload event) limits.maxEventBytes), .ok ()) :=
  ⟨rfl, [], by simp, rfl, rfl⟩

theorem liveUsageTotal_eq_ok {usage : Dict} {spent : Int} : liveUsageTotal usage = .ok spent ↔
    ∃ input output, usageInt usage "input" = .ok input ∧ usageInt usage "output" = .ok output ∧
      input + output = spent := by
  rw [liveUsageTotal, bind_eq_ok]
  simp only [bind_eq_ok, pure_eq_ok, Except.ok.injEq, exists_and_left]

theorem overspent_enforced {run : ActiveRun} {usage : Dict} {allowance : Int}
    (hallowance : run.tokenAllowance = some allowance) (hexceeded : run.budgetExceeded = false) :
    overspent run (.obj usage) = (liveUsageTotal usage).map fun spent =>
      if spent ≤ allowance then none else some (spent, allowance) := by
  simp [overspent, hallowance, hexceeded]

theorem relay_usage_iff (limits : Limits) (stop : Except Exc Unit) (s : Live)
    {event : ProtocolEvent} (husage : notifyKind event = some (str "usage")) :
    Relayed limits s event (relay limits stop s event) ↔ Meterable s.run event stop := by
  rw [relay_usage limits stop s husage]
  by_cases henforced : ∃ usage allowance, fetch event.data "data" = .obj usage ∧
      s.run.tokenAllowance = some allowance ∧ s.run.budgetExceeded = false
  · obtain ⟨usage, allowance, hdata, hallowance, hexceeded⟩ := henforced
    have hmeter : Meterable s.run event stop ↔
        ∃ spent, liveUsageTotal usage = .ok spent ∧ (allowance < spent → stop = .ok ()) := by
      simp only [Meterable, husage, hdata, hallowance, hexceeded, liveUsageTotal_eq_ok, forall_const,
        Json.obj.injEq, Option.some.injEq, forall_eq']
      constructor
      · rintro ⟨input, output, hinput, houtput, hstop⟩
        exact ⟨_, ⟨input, output, hinput, houtput, rfl⟩, hstop⟩
      · rintro ⟨_, ⟨input, output, hinput, houtput, rfl⟩, hstop⟩
        exact ⟨input, output, hinput, houtput, hstop⟩
    rw [hmeter, hdata, overspent_enforced hallowance hexceeded]
    cases liveUsageTotal usage with
    | error e => simp [Relayed]
    | ok spent =>
        simp only [map_ok, Except.ok.injEq, exists_eq_left']
        by_cases hle : spent ≤ allowance
        · rw [if_pos hle]
          exact iff_of_true (relayed_broadcast limits s event) fun hlt => absurd hle (by omega)
        · rw [if_neg hle]
          cases stop with
          | error e => simp [Relayed, hle]
          | ok u =>
              refine iff_of_true ?_ fun _ => rfl
              refine ⟨rfl, [budgetEvent spent allowance], by simp, ?_, ?_⟩
              · simp [broadcast]
              · simp [broadcast, offerAll]
  · have hnone : overspent s.run (fetch event.data "data") = .ok none := by
      cases hdata : fetch event.data "data" with
      | obj usage =>
          simp only [overspent]
          split
          next allowance hallowance =>
            refine if_pos ?_
            by_contra hexceeded
            exact henforced ⟨usage, allowance, hdata, hallowance, by simpa using hexceeded⟩
          next => rfl
      | _ => rfl
    rw [hnone]
    refine iff_of_true (relayed_broadcast limits s event) ?_
    intro _ usage hdata allowance hallowance hexceeded
    exact absurd ⟨usage, allowance, hdata, hallowance, hexceeded⟩ henforced

theorem relay_iff (limits : Limits) (stop : Except Exc Unit) (s : Live) (event : ProtocolEvent) :
    Relayed limits s event (relay limits stop s event) ↔ Meterable s.run event stop := by
  by_cases husage : notifyKind event = some (str "usage")
  · exact relay_usage_iff limits stop s husage
  · refine iff_of_true ?_ fun h => absurd h husage
    by_cases hask : notifyKind event = some (str "ask")
    · simp only [relay, hask, if_true]
      exact relayed_broadcast limits { s with run := rememberAsk s.run _ } event
    · simp only [relay, hask, husage, if_false]
      exact relayed_broadcast limits s event

/-- Each line of the run is relayed exactly when its `seq` can be counted and its usage
can be metered. -/
theorem relayed_iff {limits : Limits} {stop : Except Exc Unit} {s : Live} {line : Str}
    {event : ProtocolEvent} (hp : parseLine line = .ok (some event))
    (hrun : event.type.isControl = false)
    (hid : event.runId = .null ∨ event.runId = .str s.run.runId) :
    Relayed limits s event (onLine limits stop s line) ↔
      Countable s.run.seq event.seq ∧ Meterable s.run event stop := by
  have hown : mislabelled s.run event = false := by
    rw [mislabelled]
    rcases hid with h | h
    · rw [h]
    · simp [h, isStr]
  rw [← record_ok_iff, onLine, hp]
  simp only [hrun, hown, Bool.or_self, Bool.false_eq_true, if_false]
  cases hrec : (record s.run.seq event.seq).2 with
  | error e =>
      refine iff_of_false ?_ (by simp)
      rintro ⟨h, -⟩
      cases h
  | ok u =>
      simp only [true_and]
      exact relay_iff limits stop { s with run := { s.run with seq := (record s.run.seq event.seq).1 } }
        event

/-- Where nothing is raised, the run and its broadcasts are those that the pump gets. -/
theorem onLine_agrees {limits : Limits} {s : Live} {line : Str}
    (h : (onLine limits (.ok ()) s line).2 = .ok ()) :
    (onLine limits (.ok ()) s line).1.run = (OnLine.onLine limits.maxEventBytes s.run line).1 ∧
      (onLine limits (.ok ()) s line).1.seen =
        s.seen ++ (OnLine.onLine limits.maxEventBytes s.run line).2 := by
  rw [onLine] at h ⊢
  rw [OnLine.onLine]
  cases hp : parseLine line with
  | error e => simp
  | ok event =>
      cases event with
      | none => simp
      | some event =>
          simp only [hp] at h ⊢
          by_cases hdrop : event.type.isControl || mislabelled s.run event
          · simp [hdrop, acceptLine_dropped hdrop]
          · simp only [hdrop, Bool.false_eq_true, if_false] at h ⊢
            cases hrec : (record s.run.seq event.seq).2 with
            | error e => simp [hrec] at h
            | ok u =>
                simp only [hrec] at h ⊢
                rw [acceptLine_own hdrop hrec]
                obtain ⟨r, hr, hrun, hseen⟩ := relay_agrees h
                simp only [hr]
                exact ⟨hrun, hseen⟩

end

def hello : Str := "\x7b\"type\": \"delta\", \"seq\": 1, \"text\": \"hello\"\x7d"

def helloEvent : ProtocolEvent :=
  ⟨.delta, .int 1, .null, [(str "type", .str (str "delta")), (str "seq", .int 1),
    (str "text", .str (str "hello"))], false⟩

def idleRun : Live := ⟨.initial "r1" none, [], [[]]⟩

theorem relayed_iff_hello :
    letI : Interpreter := asciiTables
    Relayed ⟨0, 10⟩ idleRun helloEvent (onLine ⟨0, 10⟩ (.ok ()) idleRun hello) := by
  let _ : Interpreter := asciiTables
  have hmeter : Meterable idleRun.run helloEvent (.ok ()) := by
    intro h
    cases h
  refine (relayed_iff rfl rfl (.inl rfl)).mpr ⟨.inr ⟨.int 1, .int 1, rfl, rfl, .inl rfl⟩, hmeter⟩

/-- A `seq` that is a text has no place in the sequence, and its line is lost. -/
theorem not_relayed_textSeq :
    ¬ ∀ [Interpreter] (limits : Limits) (stop : Except Exc Unit) (s : Live) (line : Str)
      (event : ProtocolEvent), stop = .ok () → parseLine line = .ok (some event) →
      event.type.isControl = false → (event.runId = .null ∨ event.runId = .str s.run.runId) →
      Relayed limits s event (onLine limits stop s line) := by
  intro h
  let tables : Interpreter := asciiTables
  have hlost := h ⟨0, 10⟩ (.ok ()) idleRun "\x7b\"type\": \"delta\", \"seq\": \"1\"\x7d" _
    rfl rfl rfl (.inl rfl)
  cases hlost.1

end AgentWeb.Relaying
