import AgentWeb.Interleaving
import AgentWeb.OnLine

namespace AgentWeb.Metering

open Attempt PyText PyJson PyNumber Protocol Replay Sanitize OnLine Transitions Interleaving

/-- A line of the run that its pump hands over, or a request of the user. -/
inductive Call
  | line (text : Str)
  | cancelRun

/-- What `_active` holds for the run, its row, and what was done about it. The
object outlives its place in `_active`. -/
structure Shared where
  active : Bool
  run : ActiveRun
  escalationArmed : Bool
  running : Bool
  cancelled : Bool
  seen : List Dict
  meterCancels : Nat
  userCancels : Nat
  watchdogs : Nat

/-- How far a call has come. The payload of a line is relayed at the end. -/
inductive Stage
  | begun
  | remembering (data : Json) (payload : Dict)
  | metering (data : Json) (payload : Dict)
  | reading (data : Dict) (payload : Dict)
  | tripping (spent allowance : Int) (payload : Dict)
  | reporting (spent allowance : Int) (payload : Dict)
  | tripped (payload : Dict)
  | found
  | noted
  | cancelling
  | arming (payload : Option Dict)
  | spawning (payload : Option Dict)
  | relaying (payload : Dict)
  | returned

structure Thread where
  call : Call
  stage : Stage

abbrev State := Pool Shared Thread

structure Limits where
  maxEventBytes : Int
  cancelGraceSeconds : Int

def broadcast (g : Shared) (payload : Dict) : Shared :=
  if g.active then { g with seen := g.seen ++ [payload] } else g

def relay : Option Dict → Stage
  | some payload => .relaying payload
  | none => .returned

section Interpreter

variable [Interpreter]

/-- `_accept_line`. Without an entry in `_active` there is no `seq` to check. -/
def accept (g : Shared) (event : ProtocolEvent) : Except Exc (Shared × Bool) :=
  if g.active then (acceptLine g.run event).map fun r => ({ g with run := r.1 }, r.2)
  else .ok (g, !event.type.isControl && (match event.runId with
    | .null => true
    | v => isStr v g.run.runId))

/-- What `_on_line` does with an event by its kind. -/
def dispatch (limits : Limits) (event : ProtocolEvent) : Stage :=
  let payload := sanitizeEvent (linePayload event) limits.maxEventBytes
  let data := fetch event.data "data"
  if notifyKind event = some (str "ask") then .remembering data payload
  else if notifyKind event = some (str "usage") then .metering data payload
  else .relaying payload

def onLine (limits : Limits) (g : Shared) (text : Str) : Shared × Stage :=
  match parseLine text with
  | .ok (some event) => match accept g event with
    | .ok (g, true) => (g, dispatch limits event)
    | .ok (g, false) => (g, .returned)
    -- suppressed by the pump
    | .error _ => (g, .returned)
  | _ => (g, .returned)

def advance (limits : Limits) (g : Shared) (ok : Bool) (th : Thread) : Option (Shared × Thread) :=
  let next (r : Shared × Stage) : Option (Shared × Thread) := some (r.1, ⟨th.call, r.2⟩)
  match th.stage with
  | .begun => match th.call with
    | .line text => next (onLine limits g text)
    | .cancelRun => next (g, if g.active then .found else .returned)
  | .remembering data payload =>
      next (if g.active then { g with run := rememberAsk g.run data } else g, .relaying payload)
  | .metering data payload => match data with
    | .obj usage => next (g, if g.active then .reading usage payload else .relaying payload)
    | _ => next (g, .relaying payload)
  | .reading data payload =>
      match g.run.tokenAllowance with
      | none => next (g, .relaying payload)
      | some allowance =>
          if g.run.budgetExceeded then next (g, .relaying payload)
          else match liveUsageTotal data with
            | .error _ => next (g, .returned)
            | .ok spent =>
                next (g, if spent ≤ allowance then .relaying payload
                  else .tripping spent allowance payload)
  | .tripping spent allowance payload =>
      if g.run.budgetExceeded then next (g, .relaying payload)
      else next ({ g with run := { g.run with budgetExceeded := true } },
        .reporting spent allowance payload)
  | .reporting spent allowance payload =>
      next (broadcast g (budgetEvent spent allowance), .tripped payload)
  | .tripped payload =>
      next ({ g with meterCancels := g.meterCancels + 1 },
        if ok then .arming (some payload) else .returned)
  | .found =>
      if ok && g.running then next ({ g with cancelled := true }, .noted) else next (g, .returned)
  | .noted =>
      next (broadcast g [(str "type", .str (str "run")), (str "state", .str (str "cancel_requested"))],
        .cancelling)
  | .cancelling =>
      next ({ g with userCancels := g.userCancels + 1 }, if ok then .arming none else .returned)
  | .arming payload =>
      if limits.cancelGraceSeconds ≤ 0 then next (g, relay payload)
      else if !g.active || g.escalationArmed then next (g, relay payload)
      else next ({ g with escalationArmed := true }, .spawning payload)
  | .spawning payload =>
      if ok then next ({ g with watchdogs := g.watchdogs + 1 }, relay payload)
      else next (g, .returned)
  | .relaying payload => next (broadcast g payload, .returned)
  | .returned => none

/-- Calls arrive and go on in any order. The worker writes the terminal row, and
then takes the run out of `_active`. -/
inductive Act
  | call (call : Call)
  | advance (k : Nat) (ok : Bool)
  | commit
  | close

def step (limits : Limits) (s : State) : Act → Option State
  | .call call => some ⟨s.shared, s.threads ++ [⟨call, .begun⟩]⟩
  | .advance k ok => s.move (advance limits) k ok
  | .commit => some ⟨{ s.shared with running := false }, s.threads⟩
  | .close => some ⟨{ s.shared with active := false }, s.threads⟩

def started (runId : Str) (allowance : Int) : State :=
  ⟨⟨true, .initial runId (some allowance), false, true, false, [], 0, 0, 0⟩, []⟩

structure UsageLine (runId text : Str) (input output : Int) : Prop where
  parsed : ∃ event data, parseLine text = .ok (some event) ∧ event.type = .notify ∧
    fetch event.data "kind" = .str (str "usage") ∧ fetch event.data "data" = .obj data ∧
      Dict.get data "input" = some (.int input) ∧ Dict.get data "output" = some (.int output) ∧
        (event.runId = .null ∨ event.runId = .str runId) ∧
          (event.seq = .null ∨ ∃ i, event.seq = .int i)

def Snapshot (text : Str) (usage : Dict) : Prop :=
  ∃ event, parseLine text = .ok (some event) ∧ notifyKind event = some (str "usage") ∧
    fetch event.data "data" = .obj usage

def Exceeds (allowance : Int) (text : Str) : Prop :=
  ∃ usage spent, Snapshot text usage ∧ liveUsageTotal usage = .ok spent ∧ allowance < spent

theorem usageInt_int {usage : Dict} {key : Str} {i : Int} (h : Dict.get usage key = some (.int i)) :
    usageInt usage key = .ok i := by
  rw [usageInt, h, orElse]
  by_cases hi : i = 0 <;> simp [truthy, hi, pyInt]

theorem liveUsageTotal_int {data : Dict} {input output : Int}
    (hi : Dict.get data "input" = some (.int input))
    (ho : Dict.get data "output" = some (.int output)) :
    liveUsageTotal data = .ok (input + output) := by
  rw [liveUsageTotal, usageInt_int hi, usageInt_int ho]
  rfl

theorem UsageLine.exceeds_iff {runId text : Str} {input output allowance : Int}
    (h : UsageLine runId text input output) : Exceeds allowance text ↔ allowance < input + output := by
  obtain ⟨event, data, hp, htype, hkind, hdata, hi, ho, -, -⟩ := h.parsed
  have htotal := liveUsageTotal_int hi ho
  have hk : notifyKind event = some (str "usage") := by
    rw [notifyKind, hkind]
    simp [htype, pyStr]
  constructor
  · rintro ⟨data', spent, ⟨event', hp', -, hdata'⟩, hspent, hlt⟩
    cases hp.symm.trans hp'
    cases hdata.symm.trans hdata'
    cases htotal.symm.trans hspent
    exact hlt
  · intro hlt
    exact ⟨data, input + output, ⟨event, hp, hk, hdata⟩, htotal, hlt⟩

/-- About to call `Runner.cancel` for the overspend. -/
def fires (th : Thread) : Bool :=
  match th.stage with
  | .reporting _ _ _ | .tripped _ => true
  | _ => false

def spawns (th : Thread) : Bool :=
  match th.stage with
  | .spawning _ => true
  | _ => false

omit [Interpreter] in
theorem acceptLine_seq {run run' : ActiveRun} {event : ProtocolEvent} {ok : Bool}
    (h : acceptLine run event = .ok (run', ok)) : ∃ seq, run' = { run with seq := seq } := by
  have hcheck : ∀ r, (run.seq.check event.seq).map (fun r => ({ run with seq := r.1 }, true)) =
      Except.ok r → ∃ seq, r.1 = { run with seq := seq } := by
    intro r hr
    obtain ⟨c, -, rfl⟩ := map_eq_ok.mp hr
    exact ⟨c.1, rfl⟩
  rw [acceptLine] at h
  split at h
  next =>
    cases h
    exact ⟨run.seq, rfl⟩
  next =>
    split at h
    next => exact hcheck _ h
    next =>
      split at h
      next => exact hcheck _ h
      next =>
        cases h
        exact ⟨run.seq, rfl⟩

omit [Interpreter] in
theorem accept_seq {g g' : Shared} {event : ProtocolEvent} {ok : Bool}
    (h : accept g event = .ok (g', ok)) : ∃ seq, g' = { g with run := { g.run with seq := seq } } := by
  rw [accept] at h
  split at h
  · obtain ⟨r, hr, h⟩ := map_eq_ok.mp h
    cases h
    obtain ⟨seq, hseq⟩ := acceptLine_seq hr
    exact ⟨seq, by rw [hseq]⟩
  · cases h
    exact ⟨g.run.seq, rfl⟩

theorem onLine_seq (limits : Limits) (g : Shared) (text : Str) :
    ∃ seq, (onLine limits g text).1 = { g with run := { g.run with seq := seq } } := by
  rw [onLine]
  split
  next event _ =>
    split
    next g' hacc => exact accept_seq hacc
    next g' hacc => exact accept_seq hacc
    next => exact ⟨g.run.seq, rfl⟩
  next => exact ⟨g.run.seq, rfl⟩

theorem onLine_stage (limits : Limits) (g : Shared) (text : Str) :
    (onLine limits g text).2 = .returned ∨
      ∃ event, parseLine text = .ok (some event) ∧ (onLine limits g text).2 = dispatch limits event := by
  rw [onLine]
  split
  next event hp =>
    split
    next => exact .inr ⟨event, hp, rfl⟩
    next => exact .inl rfl
    next => exact .inl rfl
  next => exact .inl rfl

theorem rememberAsk_ask (run : ActiveRun) (data : Json) :
    ∃ ask, rememberAsk run data = { run with pendingAskId := ask } := by
  simp only [rememberAsk]
  split
  next =>
    split
    next => exact ⟨_, rfl⟩
    next => exact ⟨run.pendingAskId, rfl⟩
  next => exact ⟨run.pendingAskId, rfl⟩

def early : Stage → Bool
  | .begun | .metering _ _ | .reading _ _ | .tripping _ _ _ => true
  | _ => false

def Spared (g : Shared) : Stage → Prop
  | .metering data _ => (∀ usage, data ≠ .obj usage) ∨ g.active = false
  | .reading data _ => g.run.tokenAllowance = none ∨ g.run.budgetExceeded = true ∨
      ∀ spent allowance, liveUsageTotal data = .ok spent → g.run.tokenAllowance = some allowance →
        spent ≤ allowance
  | .tripping _ _ _ => g.run.budgetExceeded = true
  | _ => False

structure Bystands (g g' : Shared) : Prop where
  active : g'.active = g.active
  seq : g'.run.seq = g.run.seq
  runId : g'.run.runId = g.run.runId
  allowance : g'.run.tokenAllowance = g.run.tokenAllowance
  exceeded : g'.run.budgetExceeded = g.run.budgetExceeded
  armed : g'.escalationArmed = g.escalationArmed
  cancels : g'.meterCancels = g.meterCancels
  watchdogs : g'.watchdogs = g.watchdogs

def plain : Stage → Bool
  | .begun | .metering _ _ | .reading _ _ | .tripping _ _ _ | .reporting _ _ _ | .tripped _
  | .spawning _ => false
  | _ => true

inductive Advance (limits : Limits) : Shared → Thread → Shared → Thread → Prop
  | line (g : Shared) (text : Str) :
      Advance limits g ⟨.line text, .begun⟩ (onLine limits g text).1
        ⟨.line text, (onLine limits g text).2⟩
  | look (g : Shared) (call : Call) (data payload : Dict) (h : g.active = true) :
      Advance limits g ⟨call, .metering (.obj data) payload⟩ g ⟨call, .reading data payload⟩
  | measure (g : Shared) (call : Call) (data payload : Dict) (spent allowance : Int)
      (hallow : g.run.tokenAllowance = some allowance) (hspent : liveUsageTotal data = .ok spent)
      (hlt : allowance < spent) :
      Advance limits g ⟨call, .reading data payload⟩ g ⟨call, .tripping spent allowance payload⟩
  | trip (g : Shared) (call : Call) (spent allowance : Int) (payload : Dict)
      (h : g.run.budgetExceeded = false) :
      Advance limits g ⟨call, .tripping spent allowance payload⟩
        { g with run := { g.run with budgetExceeded := true } }
        ⟨call, .reporting spent allowance payload⟩
  | report (g g' : Shared) (call : Call) (spent allowance : Int) (payload : Dict)
      (hg : Bystands g g') :
      Advance limits g ⟨call, .reporting spent allowance payload⟩ g' ⟨call, .tripped payload⟩
  | cancel (g : Shared) (call : Call) (payload : Dict) (stage : Stage) (hstage : plain stage = true) :
      Advance limits g ⟨call, .tripped payload⟩ { g with meterCancels := g.meterCancels + 1 }
        ⟨call, stage⟩
  | arm (g : Shared) (call : Call) (payload : Option Dict) (h : g.escalationArmed = false) :
      Advance limits g ⟨call, .arming payload⟩ { g with escalationArmed := true }
        ⟨call, .spawning payload⟩
  | spawn (g : Shared) (call : Call) (payload : Option Dict) (n : Nat) (stage : Stage) (hn : n ≤ 1)
      (hstage : plain stage = true) :
      Advance limits g ⟨call, .spawning payload⟩ { g with watchdogs := g.watchdogs + n }
        ⟨call, stage⟩
  | spare (g : Shared) (call : Call) (stage stage' : Stage) (h : Spared g stage)
      (hstage : plain stage' = true) : Advance limits g ⟨call, stage⟩ g ⟨call, stage'⟩
  | other (g g' : Shared) (call : Call) (stage stage' : Stage) (hg : Bystands g g')
      (hcall : plain stage = true ∨ call = .cancelRun ∧ stage = .begun)
      (hstage : plain stage' = true) : Advance limits g ⟨call, stage⟩ g' ⟨call, stage'⟩

omit [Interpreter] in
theorem Bystands.refl (g : Shared) : Bystands g g := ⟨rfl, rfl, rfl, rfl, rfl, rfl, rfl, rfl⟩

omit [Interpreter] in
theorem broadcast_bystands (g : Shared) (payload : Dict) : Bystands g (broadcast g payload) := by
  rw [broadcast]
  split
  · exact ⟨rfl, rfl, rfl, rfl, rfl, rfl, rfl, rfl⟩
  · exact .refl g

omit [Interpreter] in
theorem plain_relay (payload : Option Dict) : plain (relay payload) = true := by
  cases payload <;> rfl

theorem advance_inv {limits : Limits} {g g' : Shared} {ok : Bool} {th th' : Thread}
    (h : advance limits g ok th = some (g', th')) : Advance limits g th g' th' := by
  obtain ⟨call, stage⟩ := th
  cases stage with
  | begun =>
      cases call with
      | line text =>
          cases h
          exact .line g text
      | cancelRun =>
          cases h
          refine .other g g .cancelRun _ _ (.refl g) (.inr ⟨rfl, rfl⟩) ?_
          split <;> rfl
  | remembering data payload =>
      cases h
      refine .other g _ call _ _ ?_ (.inl rfl) rfl
      split
      · obtain ⟨ask, hrun⟩ := rememberAsk_ask g.run data
        rw [hrun]
        exact ⟨rfl, rfl, rfl, rfl, rfl, rfl, rfl, rfl⟩
      · exact .refl g
  | metering data payload =>
      simp only [advance] at h
      split at h
      next usage =>
        cases h
        by_cases ha : g.active = true
        · rw [if_pos ha]
          exact .look g call usage payload ha
        · rw [if_neg ha]
          exact .spare g call _ _ (.inr (by simpa using ha)) rfl
      next hno =>
        cases h
        exact .spare g call _ _ (.inl hno) rfl
  | reading data payload =>
      have hspare (hs : Spared g (.reading data payload)) (payload' : Dict) :
          Advance limits g ⟨call, .reading data payload⟩ g ⟨call, .relaying payload'⟩ :=
        .spare g call _ _ hs rfl
      simp only [advance] at h
      split at h
      next hallow =>
        cases h
        exact hspare (.inl hallow) payload
      next allowance hallow =>
        split at h
        next hover =>
          cases h
          exact hspare (.inr (.inl hover)) payload
        next =>
          split at h
          next e herr =>
            cases h
            refine .spare g call _ _ (.inr (.inr ?_)) rfl
            intro spent _ hspent
            cases herr.symm.trans hspent
          next spent hspent =>
            cases h
            split
            next hle =>
              refine hspare (.inr (.inr ?_)) payload
              intro spent' allowance' hspent' hallow'
              cases hspent.symm.trans hspent'
              cases hallow.symm.trans hallow'
              exact hle
            next hlt =>
              exact .measure g call data payload spent allowance hallow hspent (Int.not_le.mp hlt)
  | tripping spent allowance payload =>
      simp only [advance] at h
      split at h
      next hover =>
        cases h
        exact .spare g call _ _ hover rfl
      next hover =>
        cases h
        exact .trip g call spent allowance payload (by simpa using hover)
  | reporting spent allowance payload =>
      cases h
      exact .report g _ call spent allowance payload (broadcast_bystands g _)
  | tripped payload =>
      cases h
      refine .cancel g call payload _ ?_
      split <;> rfl
  | found =>
      simp only [advance] at h
      split at h
      next =>
        cases h
        exact .other g _ call _ _ ⟨rfl, rfl, rfl, rfl, rfl, rfl, rfl, rfl⟩ (.inl rfl) rfl
      next =>
        cases h
        exact .other g g call _ _ (.refl g) (.inl rfl) rfl
  | noted =>
      cases h
      exact .other g _ call _ _ (broadcast_bystands g _) (.inl rfl) rfl
  | cancelling =>
      cases h
      refine .other g _ call _ _ ⟨rfl, rfl, rfl, rfl, rfl, rfl, rfl, rfl⟩ (.inl rfl) ?_
      split <;> rfl
  | arming payload =>
      have hrelay : Advance limits g ⟨call, .arming payload⟩ g ⟨call, relay payload⟩ :=
        .other g g call _ _ (.refl g) (.inl rfl) (plain_relay payload)
      simp only [advance] at h
      split at h
      next =>
        cases h
        exact hrelay
      next =>
        split at h
        next =>
          cases h
          exact hrelay
        next harmed =>
          cases h
          exact .arm g call payload (by simp_all)
  | spawning payload =>
      simp only [advance] at h
      split at h
      next =>
        cases h
        exact .spawn g call payload 1 _ (Nat.le_refl 1) (plain_relay payload)
      next =>
        cases h
        exact .spawn g call payload 0 _ (Nat.zero_le 1) rfl
  | relaying payload =>
      cases h
      exact .other g _ call _ _ (broadcast_bystands g _) (.inl rfl) rfl
  | returned => cases h

def IntSeq (t : SeqTracker) : Prop := ∃ last gaps, t.last = .int last ∧ t.gaps = .int gaps

omit [Interpreter] in
theorem check_intSeq {t : SeqTracker} {v : Json} (ht : IntSeq t) (hv : v = .null ∨ ∃ i, v = .int i) :
    ∃ r, t.check v = .ok r ∧ IntSeq r.1 := by
  obtain ⟨last, gaps, reordered⟩ := t
  obtain ⟨m, n, hm, hn⟩ := ht
  cases hm
  cases hn
  obtain rfl | ⟨i, rfl⟩ := hv
  · exact ⟨_, rfl, m, n, rfl, rfl⟩
  · have hcheck : SeqTracker.check ⟨.int m, .int n, reordered⟩ (.int i) =
        if eq (.int i) (.int (m + 1)) then .ok (⟨.int i, .int n, reordered⟩, false)
        else if le (.int i) (.int m) then .ok (⟨.int m, .int n, reordered + 1⟩, true)
        else .ok (⟨.int i, .int (n + (i - (m + 1))), reordered⟩, true) := rfl
    rw [hcheck]
    split
    · exact ⟨_, rfl, i, n, rfl, rfl⟩
    · split
      · exact ⟨_, rfl, m, n, rfl, rfl⟩
      · exact ⟨_, rfl, i, _, rfl, rfl⟩

theorem onLine_usage (limits : Limits) {g : Shared} {text : Str} {input output : Int}
    (h : UsageLine g.run.runId text input output) (hseq : IntSeq g.run.seq) :
    ∃ seq data payload, onLine limits g text =
      ({ g with run := { g.run with seq := seq } }, .metering (.obj data) payload) ∧
        IntSeq seq ∧ Snapshot text data := by
  obtain ⟨event, data, hp, htype, hkind, hdata, -, -, hrun, hs⟩ := h.parsed
  have hk : notifyKind event = some (str "usage") := by
    rw [notifyKind, hkind]
    simp [htype, pyStr]
  obtain ⟨r, hr, hint⟩ := check_intSeq hseq hs
  have hacc : ∃ seq, IntSeq seq ∧
      accept g event = .ok ({ g with run := { g.run with seq := seq } }, true) := by
    have hline : acceptLine g.run event = .ok ({ g.run with seq := r.1 }, true) := by
      rw [acceptLine, htype, hr]
      obtain hnull | hmine := hrun
      · rw [hnull]
        rfl
      · rw [hmine]
        simp [EventType.isControl, Except.map]
    rw [accept]
    split
    · exact ⟨r.1, hint, by rw [hline]; rfl⟩
    · refine ⟨g.run.seq, hseq, ?_⟩
      obtain hnull | hmine := hrun
      · rw [htype, hnull]
        rfl
      · rw [htype, hmine]
        simp [EventType.isControl]
  obtain ⟨seq, hseq', hacc⟩ := hacc
  refine ⟨seq, data, sanitizeEvent (linePayload event) limits.maxEventBytes, ?_, hseq', event, hp, hk, hdata⟩
  rw [onLine, hp]
  simp only [hacc]
  rw [dispatch, hk, hdata]
  rw [if_neg (by decide), if_pos rfl]

def Knows (allowance : Int) (th : Thread) : Prop :=
  match th.stage with
  | .metering data _ => ∃ text usage, th.call = .line text ∧ data = .obj usage ∧ Snapshot text usage
  | .reading usage _ => ∃ text, th.call = .line text ∧ Snapshot text usage
  | .tripping _ _ _ => ∃ text, th.call = .line text ∧ Exceeds allowance text
  | .reporting _ _ _ | .tripped _ => ∃ text, th.call = .line text
  | _ => True

/-- A call for a line beyond the allowance is on its way to the latch, unless
it is set or the run is over. -/
def Heeded (allowance : Int) (g : Shared) (th : Thread) : Prop :=
  ∀ text, th.call = .line text → Exceeds allowance text →
    early th.stage = true ∨ g.run.budgetExceeded = true ∨ g.active = false

/-- What no step of a call changes, but for the latch, which stays set. -/
structure Frame (g g' : Shared) (th th' : Thread) : Prop where
  call : th'.call = th.call
  active : g'.active = g.active
  runId : g'.run.runId = g.run.runId
  allowance : g'.run.tokenAllowance = g.run.tokenAllowance
  latched : g.run.budgetExceeded = true → g'.run.budgetExceeded = true

omit [Interpreter] in
theorem Bystands.frame {g g' : Shared} {th th' : Thread} (h : Bystands g g') (hc : th'.call = th.call) :
    Frame g g' th th' :=
  ⟨hc, h.active, h.runId, h.allowance, fun hx => h.exceeded.trans hx⟩

theorem onLine_bystands (limits : Limits) (g : Shared) (text : Str) :
    let g' := (onLine limits g text).1
    g'.active = g.active ∧ g'.run.runId = g.run.runId ∧
      g'.run.tokenAllowance = g.run.tokenAllowance ∧ g'.run.budgetExceeded = g.run.budgetExceeded ∧
        g'.escalationArmed = g.escalationArmed ∧ g'.meterCancels = g.meterCancels ∧
          g'.watchdogs = g.watchdogs := by
  obtain ⟨seq, hseq⟩ := onLine_seq limits g text
  rw [hseq]
  exact ⟨rfl, rfl, rfl, rfl, rfl, rfl, rfl⟩

theorem onLine_quiet (limits : Limits) (g : Shared) (text : Str) (call : Call) :
    fires ⟨call, (onLine limits g text).2⟩ = false ∧
      spawns ⟨call, (onLine limits g text).2⟩ = false := by
  obtain hret | ⟨event, -, hstage⟩ := onLine_stage limits g text
  · rw [hret]
    exact ⟨rfl, rfl⟩
  · rw [hstage, dispatch]
    split
    · exact ⟨rfl, rfl⟩
    · split <;> exact ⟨rfl, rfl⟩

omit [Interpreter] in
theorem quiet_of_plain {call : Call} {stage : Stage} (h : plain stage = true) :
    fires ⟨call, stage⟩ = false ∧ spawns ⟨call, stage⟩ = false := by
  cases stage <;> first | exact ⟨rfl, rfl⟩ | cases h

theorem Advance.frame {limits : Limits} {g g' : Shared} {th th' : Thread}
    (h : Advance limits g th g' th') : Frame g g' th th' := by
  cases h with
  | line text =>
      obtain ⟨hactive, hrun, hallow, hex, -⟩ := onLine_bystands limits g text
      exact ⟨rfl, hactive, hrun, hallow, fun hx => hex.trans hx⟩
  | trip call spent allowance payload hno => exact ⟨rfl, rfl, rfl, rfl, fun _ => rfl⟩
  | report _ call spent allowance payload hg => exact hg.frame rfl
  | other _ call stage stage' hg => exact hg.frame rfl
  | look | measure | cancel | arm | spawn | spare => exact ⟨rfl, rfl, rfl, rfl, id⟩

theorem Advance.cancels {limits : Limits} {g g' : Shared} {th th' : Thread}
    (h : Advance limits g th g' th') :
    g'.meterCancels + (fires th').toNat + g.run.budgetExceeded.toNat =
      g.meterCancels + (fires th).toNat + g'.run.budgetExceeded.toNat := by
  cases h with
  | line text =>
      obtain ⟨-, -, -, hex, -, hc, -⟩ := onLine_bystands limits g text
      rw [(onLine_quiet limits g text _).1, hex, hc]
      rfl
  | trip call spent allowance payload hno =>
      rw [hno]
      rfl
  | report _ call spent allowance payload hg =>
      rw [hg.cancels, hg.exceeded]
      rfl
  | cancel call payload stage hstage =>
      rw [(quiet_of_plain hstage).1]
      rfl
  | spawn call payload n stage hn hstage =>
      rw [(quiet_of_plain hstage).1]
      rfl
  | spare call stage stage' hs hstage =>
      have hfires : fires ⟨call, stage⟩ = false := by
        cases stage <;> first | rfl | cases hs
      rw [(quiet_of_plain hstage).1, hfires]
  | other _ call stage stage' hg hcall hstage =>
      have hfires : fires ⟨call, stage⟩ = false := by
        obtain hplain | ⟨-, rfl⟩ := hcall
        · exact (quiet_of_plain hplain).1
        · rfl
      rw [(quiet_of_plain hstage).1, hfires, hg.cancels, hg.exceeded]
  | look | measure | arm => rfl

theorem Advance.watchdogs {limits : Limits} {g g' : Shared} {th th' : Thread}
    (h : Advance limits g th g' th') :
    g'.watchdogs + (spawns th').toNat + g.escalationArmed.toNat ≤
      g.watchdogs + (spawns th).toNat + g'.escalationArmed.toNat := by
  cases h with
  | line text =>
      obtain ⟨-, -, -, -, harm, -, hw⟩ := onLine_bystands limits g text
      rw [(onLine_quiet limits g text _).2, harm, hw]
      exact Nat.le_refl _
  | report _ call spent allowance payload hg =>
      rw [hg.watchdogs, hg.armed]
      exact Nat.le_refl _
  | cancel call payload stage hstage =>
      rw [(quiet_of_plain hstage).2]
      exact Nat.le_refl _
  | arm call payload hno =>
      rw [hno]
      exact Nat.le_refl _
  | spawn call payload n stage hn hstage =>
      rw [(quiet_of_plain hstage).2]
      change g.watchdogs + n + 0 + g.escalationArmed.toNat ≤ g.watchdogs + 1 + g.escalationArmed.toNat
      omega
  | spare call stage stage' hs hstage =>
      rw [(quiet_of_plain hstage).2]
      exact Nat.add_le_add_right (Nat.le_add_right _ _) _
  | other _ call stage stage' hg hcall hstage =>
      rw [(quiet_of_plain hstage).2, hg.watchdogs, hg.armed]
      exact Nat.add_le_add_right (Nat.le_add_right _ _) _
  | look | measure | trip => exact Nat.le_refl _

theorem Snapshot.unique {text : Str} {usage usage' : Dict} (h : Snapshot text usage)
    (h' : Snapshot text usage') : usage = usage' := by
  obtain ⟨event, hp, -, hdata⟩ := h
  obtain ⟨event', hp', -, hdata'⟩ := h'
  cases hp.symm.trans hp'
  cases hdata.symm.trans hdata'
  rfl

theorem knows_of_plain {allowance : Int} {call : Call} {stage : Stage} (h : plain stage = true) :
    Knows allowance ⟨call, stage⟩ := by
  cases stage <;> trivial

def Usage (runId : Str) (call : Call) : Prop :=
  ∀ text, call = .line text → ∃ input output, UsageLine runId text input output

theorem Advance.seq {limits : Limits} {g g' : Shared} {th th' : Thread}
    (h : Advance limits g th g' th') (hcall : Usage g.run.runId th.call) (hseq : IntSeq g.run.seq) :
    IntSeq g'.run.seq := by
  cases h with
  | line text =>
      obtain ⟨input, output, hline⟩ := hcall text rfl
      obtain ⟨seq, data, payload, heq, hint, -⟩ := onLine_usage limits hline hseq
      rw [heq]
      exact hint
  | report _ call spent allowance payload hg => exact hg.seq ▸ hseq
  | other _ call stage stage' hg => exact hg.seq ▸ hseq
  | look | measure | trip | cancel | arm | spawn | spare => exact hseq

theorem Advance.knows {limits : Limits} {g g' : Shared} {th th' : Thread} {allowance : Int}
    (h : Advance limits g th g' th') (hcall : Usage g.run.runId th.call) (hseq : IntSeq g.run.seq)
    (hallow : g.run.tokenAllowance = some allowance) (hk : Knows allowance th) :
    Knows allowance th' := by
  cases h with
  | line text =>
      obtain ⟨input, output, hline⟩ := hcall text rfl
      obtain ⟨seq, usage, payload, heq, -, hsnap⟩ := onLine_usage limits hline hseq
      rw [heq]
      exact ⟨text, usage, rfl, rfl, hsnap⟩
  | look call usage payload hactive =>
      obtain ⟨text, usage', htext, heq, hsnap⟩ := hk
      cases heq
      exact ⟨text, htext, hsnap⟩
  | measure call usage payload spent allowance' hallow' hspent hlt =>
      obtain ⟨text, htext, hsnap⟩ := hk
      cases hallow.symm.trans hallow'
      exact ⟨text, htext, usage, spent, hsnap, hspent, hlt⟩
  | trip call spent allowance' payload hno =>
      obtain ⟨text, htext, -⟩ := hk
      exact ⟨text, htext⟩
  | report _ call spent allowance' payload hg => exact hk
  | arm => trivial
  | cancel call payload stage hstage => exact knows_of_plain hstage
  | spawn call payload n stage hn hstage => exact knows_of_plain hstage
  | spare call stage stage' hs hstage => exact knows_of_plain hstage
  | other _ call stage stage' hg hc hstage => exact knows_of_plain hstage

theorem Spared.heeded {g : Shared} {call : Call} {stage stage' : Stage} {allowance : Int}
    (hs : Spared g stage) (hallow : g.run.tokenAllowance = some allowance)
    (hk : Knows allowance ⟨call, stage⟩) : Heeded allowance g ⟨call, stage'⟩ := by
  rintro text rfl ⟨usage, spent, hsnap, hspent, hlt⟩
  cases stage with
  | metering data payload =>
      obtain ⟨-, usage', -, hobj, -⟩ := hk
      obtain hno | hgone := hs
      · exact absurd hobj (hno usage')
      · exact .inr (.inr hgone)
  | reading usage' payload =>
      obtain ⟨text', htext, hsnap'⟩ := hk
      cases htext
      cases hsnap.unique hsnap'
      obtain hnone | hover | hle := hs
      · cases hallow.symm.trans hnone
      · exact .inr (.inl hover)
      · exact absurd (hle spent allowance hspent hallow) (Int.not_le.mpr hlt)
  | tripping spent' allowance' payload => exact .inr (.inl hs)
  | _ => exact hs.elim

theorem Heeded.late {g g' : Shared} {th th' : Thread} {allowance : Int} (h : Heeded allowance g th)
    (hf : Frame g g' th th') (hlate : early th.stage = false) : Heeded allowance g' th' := by
  intro text htext hex
  obtain he | hover | hgone := h text (hf.call ▸ htext) hex
  · rw [hlate] at he
    cases he
  · exact .inr (.inl (hf.latched hover))
  · exact .inr (.inr (hf.active.trans hgone))

omit [Interpreter] in
theorem early_of_plain {stage : Stage} (h : plain stage = true) : early stage = false := by
  cases stage <;> first | rfl | cases h

theorem Advance.heeded {limits : Limits} {g g' : Shared} {th th' : Thread} {allowance : Int}
    (h : Advance limits g th g' th') (hcall : Usage g.run.runId th.call) (hseq : IntSeq g.run.seq)
    (hallow : g.run.tokenAllowance = some allowance) (hk : Knows allowance th)
    (hd : Heeded allowance g th) : Heeded allowance g' th' := by
  have hf := h.frame
  cases h with
  | line text =>
      obtain ⟨input, output, hline⟩ := hcall text rfl
      obtain ⟨seq, usage, payload, heq, -⟩ := onLine_usage limits hline hseq
      rw [heq]
      exact fun _ _ _ => .inl rfl
  | look | measure => exact fun _ _ _ => .inl rfl
  | trip => exact fun _ _ _ => .inr (.inl rfl)
  | report | cancel | arm | spawn => exact hd.late hf rfl
  | spare call stage stage' hs hstage => exact hs.heeded hallow hk
  | other _ call stage stage' hg hc hstage =>
      obtain hplain | ⟨rfl, rfl⟩ := hc
      · exact hd.late hf (early_of_plain hplain)
      · intro text htext
        cases htext

theorem Advance.cause {limits : Limits} {g g' : Shared} {th th' : Thread} {allowance : Int}
    (h : Advance limits g th g' th') (hk : Knows allowance th)
    (hover : g'.run.budgetExceeded = true) :
    g.run.budgetExceeded = true ∨ ∃ text, th.call = .line text ∧ Exceeds allowance text := by
  cases h with
  | line text =>
      obtain ⟨-, -, -, hex, -⟩ := onLine_bystands limits g text
      exact .inl (hex ▸ hover)
  | trip call spent allowance' payload hno => exact .inr hk
  | report _ call spent allowance payload hg => exact .inl (hg.exceeded ▸ hover)
  | other _ call stage stage' hg => exact .inl (hg.exceeded ▸ hover)
  | look | measure | cancel | arm | spawn | spare => exact .inl hover

structure Metered (runId : Str) (allowance : Int) (s : State) : Prop where
  ident : s.shared.run.runId = runId
  limit : s.shared.run.tokenAllowance = some allowance
  seq : IntSeq s.shared.run.seq
  calls : ∀ th ∈ s.threads, Usage runId th.call
  knows : ∀ th ∈ s.threads, Knows allowance th
  heeded : ∀ th ∈ s.threads, Heeded allowance s.shared th
  cause : s.shared.run.budgetExceeded = true →
    ∃ th ∈ s.threads, ∃ text, th.call = .line text ∧ Exceeds allowance text
  cancels : s.shared.meterCancels + s.threads.countP fires = s.shared.run.budgetExceeded.toNat
  watchdogs : s.shared.watchdogs + s.threads.countP spawns ≤ s.shared.escalationArmed.toNat

theorem Metered.started (runId : Str) (allowance : Int) : Metered runId allowance (started runId allowance) where
  ident := rfl
  limit := rfl
  seq := ⟨0, 0, rfl, rfl⟩
  calls := by simp [Metering.started]
  knows := by simp [Metering.started]
  heeded := by simp [Metering.started]
  cause := by simp [Metering.started, ActiveRun.initial]
  cancels := rfl
  watchdogs := Nat.le_refl 0

theorem Metered.arrive {runId : Str} {allowance : Int} {s : State} {call : Call}
    (h : Metered runId allowance s) (hc : Usage runId call) :
    Metered runId allowance ⟨s.shared, s.threads ++ [⟨call, .begun⟩]⟩ where
  ident := h.ident
  limit := h.limit
  seq := h.seq
  calls := by
    intro th hth
    obtain hth | rfl := by simpa using hth
    · exact h.calls th hth
    · exact hc
  knows := by
    intro th hth
    obtain hth | rfl := by simpa using hth
    · exact h.knows th hth
    · trivial
  heeded := by
    intro th hth
    obtain hth | rfl := by simpa using hth
    · exact h.heeded th hth
    · exact fun _ _ _ => .inl rfl
  cause hover := by
    obtain ⟨th, hth, hex⟩ := h.cause hover
    exact ⟨th, List.mem_append_left _ hth, hex⟩
  cancels := by simpa [fires] using h.cancels
  watchdogs := by simpa [spawns] using h.watchdogs

theorem Metered.advance {limits : Limits} {runId : Str} {allowance : Int} {s : State} {k : Nat}
    {th th' : Thread} {g : Shared} (h : Metered runId allowance s) (hk : s.threads[k]? = some th)
    (ha : Advance limits s.shared th g th') : Metered runId allowance ⟨g, s.threads.set k th'⟩ := by
  have hmem := List.mem_of_getElem? hk
  have hcall : Usage s.shared.run.runId th.call := h.ident ▸ h.calls th hmem
  have hf := ha.frame
  have hknows := ha.knows hcall h.seq h.limit (h.knows th hmem)
  have hheeded := ha.heeded hcall h.seq h.limit (h.knows th hmem) (h.heeded th hmem)
  refine ⟨hf.runId.trans h.ident, hf.allowance.trans h.limit, ha.seq hcall h.seq, ?_, ?_, ?_, ?_, ?_, ?_⟩
  · intro a hmem'
    obtain hold | rfl := List.mem_or_eq_of_mem_set hmem'
    · exact h.calls a hold
    · exact hf.call ▸ h.calls th hmem
  · intro a hmem'
    obtain hold | rfl := List.mem_or_eq_of_mem_set hmem'
    · exact h.knows a hold
    · exact hknows
  · intro a hmem'
    obtain hold | rfl := List.mem_or_eq_of_mem_set hmem'
    · intro text htext hex
      obtain he | hover | hgone := h.heeded a hold text htext hex
      · exact .inl he
      · exact .inr (.inl (hf.latched hover))
      · exact .inr (.inr (hf.active.trans hgone))
    · exact hheeded
  · intro hover
    obtain hover | hline := ha.cause (h.knows th hmem) hover
    · exact exists_set hk (h.cause hover) fun hline => hf.call ▸ hline
    · exact ⟨th', mem_set_self hk th', hf.call ▸ hline⟩
  · have hcount := countP_set_add hk th' fires
    have hstep := ha.cancels
    have hbefore := h.cancels
    change g.meterCancels + (s.threads.set k th').countP fires = g.run.budgetExceeded.toNat
    omega
  · have hcount := countP_set_add hk th' spawns
    have hstep := ha.watchdogs
    have hbefore := h.watchdogs
    change g.watchdogs + (s.threads.set k th').countP spawns ≤ g.escalationArmed.toNat
    omega

theorem Metered.step {limits : Limits} {runId : Str} {allowance : Int} {s t : State} {act : Act}
    (h : Metered runId allowance s) (hc : ∀ call, act = .call call → Usage runId call)
    (ht : step limits s act = some t) : Metered runId allowance t := by
  cases act with
  | call call =>
      cases ht
      exact h.arrive (hc call rfl)
  | advance k ok =>
      obtain ⟨th, g, th', hk, hadv, rfl⟩ := move_eq_some.mp ht
      exact h.advance hk (advance_inv hadv)
  | commit =>
      cases ht
      exact { h with }
  | close =>
      cases ht
      exact { h with heeded := fun _ _ _ _ _ => .inr (.inr rfl) }

theorem Metered.run {limits : Limits} {runId : Str} {allowance : Int} {s t : State} {acts : List Act}
    (h : Metered runId allowance s) (hc : ∀ call, .call call ∈ acts → Usage runId call)
    (hr : Transitions.run (Metering.step limits) s acts = some t) : Metered runId allowance t := by
  induction acts generalizing s with
  | nil =>
      cases hr
      exact h
  | cons act acts ih =>
      obtain ⟨u, hu, hr⟩ := run_cons_eq_some.mp hr
      have hact : ∀ call, act = .call call → Usage runId call := by
        rintro call rfl
        exact hc call List.mem_cons_self
      exact ih (h.step hact hu) (fun call hcall => hc call (List.mem_cons_of_mem act hcall)) hr

theorem step_calls {limits : Limits} {s t : State} {act : Act} (ht : step limits s act = some t)
    (call : Call) : call ∈ t.threads.map Thread.call ↔
      call ∈ s.threads.map Thread.call ∨ act = .call call := by
  cases act with
  | call call' =>
      cases ht
      simp [eq_comm]
  | advance k ok =>
      obtain ⟨th, g, th', hk, hadv, rfl⟩ := move_eq_some.mp ht
      obtain ⟨hlt, rfl⟩ := List.getElem?_eq_some_iff.mp hk
      have hsame : (s.threads.set k th').map Thread.call = s.threads.map Thread.call := by
        rw [List.map_set, (advance_inv hadv).frame.call, ← List.getElem_map Thread.call, List.set_getElem_self]
        simpa using hlt
      rw [hsame]
      simp
  | commit | close =>
      cases ht
      simp

theorem run_calls {limits : Limits} {s t : State} {acts : List Act}
    (hr : run (step limits) s acts = some t) (call : Call) :
    call ∈ t.threads.map Thread.call ↔ call ∈ s.threads.map Thread.call ∨ .call call ∈ acts := by
  induction acts generalizing s with
  | nil =>
      cases hr
      simp
  | cons act acts ih =>
      obtain ⟨u, hu, hr⟩ := run_cons_eq_some.mp hr
      rw [ih hr, step_calls hu, List.mem_cons, eq_comm (a := act), or_assoc]

theorem Advance.cancels_le {limits : Limits} {g g' : Shared} {th th' : Thread}
    (h : Advance limits g th g' th') : g.meterCancels ≤ g'.meterCancels := by
  cases h with
  | line text =>
      obtain ⟨-, -, -, -, -, hc, -⟩ := onLine_bystands limits g text
      exact hc.ge
  | report _ call spent allowance payload hg => exact hg.cancels.ge
  | other _ call stage stage' hg => exact hg.cancels.ge
  | cancel => exact Nat.le_succ _
  | look | measure | trip | arm | spawn | spare => exact Nat.le_refl _

theorem run_cancels_le {limits : Limits} {s t : State} {acts : List Act}
    (hr : run (step limits) s acts = some t) : s.shared.meterCancels ≤ t.shared.meterCancels := by
  refine run_invariant (I := fun u => s.shared.meterCancels ≤ u.shared.meterCancels) ?_ le_rfl hr
  intro u act v hu hv
  refine le_trans hu ?_
  cases act with
  | advance k ok =>
      obtain ⟨th, g, th', -, hadv, rfl⟩ := move_eq_some.mp hv
      exact (advance_inv hadv).cancels_le
  | call | commit | close =>
      cases hv
      exact le_rfl

def handled (th : Thread) : Bool :=
  match th.call, th.stage with
  | .line _, .returned | .cancelRun, _ => true
  | .line _, _ => false

/-- The run goes on, and its lines have all been handled. -/
structure Fed (s : State) : Prop where
  active : s.shared.active = true
  handled : s.threads.all handled = true

omit [Interpreter] in
theorem Fed.returned {s : State} (h : Fed s) {th : Thread} {text : Str} (hth : th ∈ s.threads)
    (htext : th.call = .line text) : th.stage = .returned := by
  have hhandled := List.all_eq_true.mp h.handled th hth
  obtain ⟨call, stage⟩ := th
  cases htext
  cases stage <;> first | rfl | cases hhandled

theorem Metered.fed {runId : Str} {allowance : Int} {s : State} (h : Metered runId allowance s)
    (hfed : Fed s) {th : Thread} {text : Str} (hth : th ∈ s.threads) (htext : th.call = .line text)
    (hex : Exceeds allowance text) : s.shared.meterCancels = 1 := by
  have hover : s.shared.run.budgetExceeded = true := by
    obtain he | hover | hgone := h.heeded th hth text htext hex
    · rw [hfed.returned hth htext] at he
      cases he
    · exact hover
    · rw [hfed.active] at hgone
      cases hgone
  have hfires : s.threads.countP fires = 0 := by
    rw [List.countP_eq_zero]
    intro a ha hfire
    have hline : ∃ text, a.call = .line text := by
      have hk := h.knows a ha
      obtain ⟨call, stage⟩ := a
      cases stage <;> first | exact hk | cases hfire
    obtain ⟨text', htext'⟩ := hline
    rw [fires, hfed.returned ha htext'] at hfire
    cases hfire
  have hcancels := h.cancels
  rw [hfires, hover] at hcancels
  exact hcancels

/-- The metering cancels at most once, and only for a line beyond the allowance.
Once the lines are handled such a line has cancelled. One watchdog waits at most. -/
theorem metering_trips_once (limits : Limits) (runId : Str) (allowance : Int) {acts : List Act} {s : State}
    (hlines : ∀ text, .call (.line text) ∈ acts → ∃ input output, UsageLine runId text input output)
    (hr : run (step limits) (started runId allowance) acts = some s) :
    s.shared.watchdogs ≤ 1 ∧ s.shared.meterCancels ≤ 1 ∧
      (s.shared.meterCancels = 1 → ∃ text input output, .call (.line text) ∈ acts ∧
        UsageLine runId text input output ∧ allowance < input + output) ∧
      ∀ before after t, acts = before ++ after →
        run (step limits) (started runId allowance) before = some t → Fed t →
        ∀ text input output, .call (.line text) ∈ before → UsageLine runId text input output →
          allowance < input + output → s.shared.meterCancels = 1 := by
  have hcalls : ∀ call, .call call ∈ acts → Usage runId call := by
    rintro call hcall text rfl
    exact hlines text hcall
  have hs := (Metered.started runId allowance).run hcalls hr
  have hcancels : s.shared.meterCancels ≤ 1 :=
    (Nat.le_add_right _ _).trans (hs.cancels.le.trans (Bool.toNat_le _))
  refine ⟨(Nat.le_add_right _ _).trans (hs.watchdogs.trans (Bool.toNat_le _)), hcancels, ?_, ?_⟩
  · intro hone
    have hover : s.shared.run.budgetExceeded = true := by
      by_contra hno
      have hpaid := hs.cancels
      rw [hone, Bool.not_eq_true _ |>.mp hno, Bool.toNat_false] at hpaid
      omega
    obtain ⟨th, hth, text, htext, hex⟩ := hs.cause hover
    obtain hmem | hmem := (run_calls hr (.line text)).mp (List.mem_map.mpr ⟨th, hth, htext⟩)
    · cases hmem
    · obtain ⟨input, output, hline⟩ := hlines text hmem
      exact ⟨text, input, output, hmem, hline, hline.exceeds_iff.mp hex⟩
  · rintro before after t rfl ht hfed text input output hmem hline hlt
    have hmet := (Metered.started runId allowance).run
      (fun call hcall => hcalls call (List.mem_append_left after hcall)) ht
    obtain ⟨th, hth, htext⟩ := List.mem_map.mp ((run_calls ht (.line text)).mpr (.inr hmem))
    have hone := hmet.fed hfed hth htext (hline.exceeds_iff.mpr hlt)
    rw [run_append, ht] at hr
    exact le_antisymm hcancels (hone ▸ run_cancels_le hr)

end Interpreter

def overspend : Str :=
  str "\x7b\"type\": \"notify\", \"kind\": \"usage\", \"data\": \x7b\"input\": 2, \"output\": 3\x7d\x7d"

theorem overspend_usageLine :
    letI : Interpreter := asciiTables
    UsageLine (str "r") overspend 2 3 := by
  let _ : Interpreter := asciiTables
  exact ⟨_, _, rfl, rfl, rfl, rfl, rfl, rfl, .inl rfl, .inl rfl⟩

def tripping : List Act :=
  .call (.line overspend) :: .call .cancelRun :: (List.replicate 9 (.advance 0 true) ++
    List.replicate 5 (.advance 1 true))

theorem tripping_trips_once :
    letI : Interpreter := asciiTables
    ∃ s, run (step ⟨1000, 10⟩) (started (str "r") 4) tripping = some s ∧ s.shared.watchdogs ≤ 1 ∧
      s.shared.meterCancels = 1 := by
  let _ : Interpreter := asciiTables
  have hlines : ∀ text, .call (.line text) ∈ tripping →
      ∃ input output, UsageLine (str "r") text input output := by
    intro text hmem
    have htext : text = overspend := by simpa [tripping] using hmem
    rw [htext]
    exact ⟨2, 3, overspend_usageLine⟩
  have hend : (run (step ⟨1000, 10⟩) (started (str "r") 4) tripping).map
      (fun s => (s.shared.active, s.threads.all handled)) = some (true, true) := by decide +kernel
  obtain ⟨s, hs, hfed⟩ := Option.map_eq_some_iff.mp hend
  obtain ⟨hactive, hhandled⟩ := Prod.mk.inj hfed
  obtain ⟨hw, -, -, hdue⟩ := metering_trips_once ⟨1000, 10⟩ (str "r") 4 hlines hs
  exact ⟨s, hs, hw, hdue tripping [] s (List.append_nil _).symm hs ⟨hactive, hhandled⟩ overspend 2 3
    List.mem_cons_self overspend_usageLine (by decide)⟩

end AgentWeb.Metering
