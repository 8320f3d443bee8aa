import AgentWeb.Delivery
import AgentWeb.Finish
import AgentWeb.OnLine

namespace AgentWeb.Session

open PyText PyJson Protocol Replay Transitions OnLine Finish Fanout
open Offer hiding step Act

/-- How far `start_run` and its worker are with a run whose row is committed.
`closing` is reached when the worker calls `_close_active`. -/
inductive Stage
  | starting
  | running
  | finishing (outcome : RunOutcome) (finalState : Str) (events : Option (List Dict))
  | written (finalState : Str)
  | closing (finalState : Str)

/-- A request of `stream_run`: it has loaded the row, is in its call of
`subscribe`, streams from a queue, or was sent the stored transcript. -/
inductive Client
  | loaded (row : Row) (sinceSeq : Int)
  | attaching (row : Row) (sinceSeq : Int) (t : Nat)
  | live (q : Nat)
  | replayed (sinceSeq : Int) (served : List Dict)

/-- A run, its row, the threads that fan its events out and the requests that
stream it. The worker broadcasts one event after the other, from its own
thread. -/
structure State where
  row : Row
  stage : Stage
  run : ActiveRun
  outbox : List Dict
  sender : Option Nat
  fan : Sys
  clients : List Client

def State.claimed (instanceId runId : Str) (tokenAllowance : Option Int) : State :=
  ⟨.running instanceId, .starting, .initial runId tokenAllowance, [], none,
    { Sys.registered with active := false }, []⟩

def isRun (event : Dict) : Bool := isStr (fetch event "type") "run"

def streamed (f : Sys) (q : Nat) : List Dict :=
  (f.chans[q]?).elim [] fun c => c.taken.filterMap fun i => f.seen[i]?

def cancelEvent : Dict := runEvent "cancel_requested"

def State.idle (s : State) : Bool :=
  s.sender.all fun t => match s.fan.tasks[t]? with
    | some .returned => true
    | _ => false

inductive Act
  | register
  | sandboxFails (message : Str)
  | line (line : Str)
  | send
  | cancel
  | finish (outcome : RunOutcome)
  | commit
  | close
  | load (sinceSeq : Int)
  | subscribe (k : Nat)
  | attach (k : Nat)
  | take (k : Nat)
  | leave (k : Nat)
  | advance (t : Nat) (order : List Nat)

def isSubscribe : Thread → Bool
  | .calling (.subscribe _) | .holding (.subscribe _) => true
  | _ => false

def fanAct (s : State) : Act → Option Fanout.Act
  | .send => s.outbox.head?.map fun payload => .call (.broadcast payload)
  | .cancel =>
      if s.fan.active && s.row.status == str "running" then some (.call (.broadcast cancelEvent))
      else none
  | .close => match s.stage with
    | .written finalState => some (.call (.closeActive finalState))
    | _ => none
  | .subscribe k => match s.clients[k]? with
    | some (.loaded _ sinceSeq) => some (.call (.subscribe sinceSeq))
    | _ => none
  | .attach k => match s.clients[k]? with
    | some (.attaching _ _ t) => some (.advance t [])
    | _ => none
  | .take k => match s.clients[k]? with
    | some (.live q) => some (.get q)
    | _ => none
  | .leave k => match s.clients[k]? with
    | some (.live q) => some (.call (.unsubscribe q))
    | _ => none
  | .advance t order => some (.advance t order)
  | _ => none

section Interpreter

variable [Interpreter]

def setClient (s : State) (k : Nat) (client : Client) : State :=
  { s with clients := s.clients.set k client }

def act (limits : Limits) (s : State) : Act → Option State
  | .register => match s.stage with
    | .starting => some { s with stage := .running, fan := { s.fan with active := true } }
    | _ => none
  | .sandboxFails message => match s.stage with
    | .starting =>
        let outcome : RunOutcome := { errors := [str "sandbox unavailable: " ++ message] }
        some { s with stage := .finishing outcome (runStatus outcome) none }
    | _ => none
  | .line line => match s.stage with
    | .running =>
        if s.idle && s.outbox.isEmpty then
          let r := onLine limits.maxEventBytes s.run line
          some { s with run := r.1, outbox := r.2 }
        else none
    | _ => none
  | .send => match s.stage, s.outbox with
    | .running, _ :: outbox =>
        if s.idle then some { s with outbox := outbox, sender := some s.fan.tasks.length } else none
    | _, _ => none
  | .cancel =>
      if s.fan.active && s.row.status == str "running" then
        some { s with row := { s.row with cancelled := true } }
      else some s
  | .finish outcome => match s.stage with
    | .running =>
        if s.idle && s.outbox.isEmpty then
          -- the status is taken before the budget is blamed
          let outcome' := if s.run.budgetExceeded then blameBudget outcome else outcome
          some { s with stage := .finishing outcome' (runStatus outcome) (some s.fan.seen) }
        else none
    | _ => none
  | .commit => match s.stage with
    | .finishing outcome finalState events =>
        match recordUsage outcome with
        | .ok _ => some { s with
            row := terminalRow limits s.row outcome finalState events
            stage := .written finalState }
        -- rolled back, and `_close_active` is called all the same
        | .error _ => some { s with stage := .written finalState }
    | _ => none
  | .close => match s.stage with
    | .written finalState =>
        some { s with stage := .closing finalState, sender := some s.fan.tasks.length }
    | _ => none
  | .load sinceSeq => some { s with clients := s.clients ++ [.loaded s.row sinceSeq] }
  | .subscribe k => match s.clients[k]? with
    | some (.loaded row sinceSeq) =>
        some (setClient s k (.attaching row sinceSeq s.fan.tasks.length))
    | _ => none
  | .attach k => match s.clients[k]? with
    | some (.attaching row sinceSeq t) => match s.fan.tasks[t]? with
      | some (.calling (.subscribe _)) =>
          if s.fan.active then some s
          else some (setClient s k
            (.replayed sinceSeq (replayPayloads row.events row.status sinceSeq)))
      | some (.holding (.subscribe _)) => some (setClient s k (.live s.fan.chans.length))
      | _ => none
    | _ => none
  | .take k => match s.clients[k]? with
    -- the route stops at the first event of type `run`
    | some (.live q) => if (streamed s.fan q).any isRun then none else some s
    | _ => none
  | .leave k => match s.clients[k]? with
    | some (.live q) => if (streamed s.fan q).any isRun then some s else none
    | _ => none
  | .advance t _ => match s.fan.tasks[t]? with
    | some task => if isSubscribe task then none else some s
    | none => none

def step (limits : Limits) (s : State) (a : Act) : Option State :=
  (act limits s a).bind fun s' => match fanAct s a with
    | none => some s'
    | some a => (Fanout.step limits.maxSubscriberQueue s.fan a).map fun fan => { s' with fan := fan }

def called (f : Sys) (call : Call) : Sys := { f with tasks := f.tasks ++ [.calling call] }

inductive Move (limits : Limits) (s : State) : Act → State → Prop
  | register (hstage : s.stage = .starting) :
      Move limits s .register { s with stage := .running, fan := { s.fan with active := true } }
  | sandboxFails (message : Str) (outcome : RunOutcome) (hstage : s.stage = .starting) :
      Move limits s (.sandboxFails message)
        { s with stage := .finishing outcome (runStatus outcome) none }
  | line (line : Str) (hstage : s.stage = .running) (hidle : s.idle) (hout : s.outbox = []) :
      Move limits s (.line line)
        { s with
          run := (onLine limits.maxEventBytes s.run line).1
          outbox := (onLine limits.maxEventBytes s.run line).2 }
  | send (payload : Dict) (outbox : List Dict) (hstage : s.stage = .running)
      (hout : s.outbox = payload :: outbox) (hidle : s.idle) :
      Move limits s .send
        { s with
          outbox := outbox
          sender := some s.fan.tasks.length
          fan := called s.fan (.broadcast payload) }
  | cancel (hactive : s.fan.active = true) (hrow : s.row.status = str "running") :
      Move limits s .cancel
        { s with
          row := { s.row with cancelled := true }
          fan := called s.fan (.broadcast cancelEvent) }
  | refuse (h : s.fan.active = true → s.row.status ≠ str "running") : Move limits s .cancel s
  | finish (outcome outcome' : RunOutcome) (hstage : s.stage = .running) (hidle : s.idle)
      (hout : s.outbox = []) :
      Move limits s (.finish outcome)
        { s with stage := .finishing outcome' (runStatus outcome) (some s.fan.seen) }
  | commit (outcome : RunOutcome) (finalState : Str) (events : Option (List Dict))
      (hstage : s.stage = .finishing outcome finalState events) :
      Move limits s .commit
        { s with
          row := terminalRow limits s.row outcome finalState events
          stage := .written finalState }
  | rollback (outcome : RunOutcome) (finalState : Str) (events : Option (List Dict))
      (hstage : s.stage = .finishing outcome finalState events)
      (hraise : ¬ ∃ event, recordUsage outcome = .ok event) :
      Move limits s .commit { s with stage := .written finalState }
  | close (finalState : Str) (hstage : s.stage = .written finalState) :
      Move limits s .close
        { s with
          stage := .closing finalState
          sender := some s.fan.tasks.length
          fan := called s.fan (.closeActive finalState) }
  | load (sinceSeq : Int) :
      Move limits s (.load sinceSeq) { s with clients := s.clients ++ [.loaded s.row sinceSeq] }
  | subscribe (k : Nat) (row : Row) (sinceSeq : Int)
      (hclient : s.clients[k]? = some (.loaded row sinceSeq)) :
      Move limits s (.subscribe k)
        { setClient s k (.attaching row sinceSeq s.fan.tasks.length) with
          fan := called s.fan (.subscribe sinceSeq) }
  | lookUp (k t : Nat) (row : Row) (sinceSeq sinceSeq' : Int) (client : Client) (fan : Sys)
      (hclient : s.clients[k]? = some (.attaching row sinceSeq t))
      (ht : s.fan.tasks[t]? = some (.calling (.subscribe sinceSeq')))
      (hresult : client = .attaching row sinceSeq t ∨ s.fan.active = false ∧
        client = .replayed sinceSeq (replayPayloads row.events row.status sinceSeq))
      (hfan : Fanout.step limits.maxSubscriberQueue s.fan (.advance t []) = some fan) :
      Move limits s (.attach k) { setClient s k client with fan := fan }
  | attach (k t : Nat) (row : Row) (sinceSeq sinceSeq' : Int) (fan : Sys)
      (hclient : s.clients[k]? = some (.attaching row sinceSeq t))
      (ht : s.fan.tasks[t]? = some (.holding (.subscribe sinceSeq')))
      (hfan : Fanout.step limits.maxSubscriberQueue s.fan (.advance t []) = some fan) :
      Move limits s (.attach k) { setClient s k (.live s.fan.chans.length) with fan := fan }
  | take (k q : Nat) (fan : Sys) (hclient : s.clients[k]? = some (.live q))
      (hopen : (streamed s.fan q).any isRun = false)
      (hfan : Fanout.step limits.maxSubscriberQueue s.fan (.get q) = some fan) :
      Move limits s (.take k) { s with fan := fan }
  | leave (k q : Nat) (hclient : s.clients[k]? = some (.live q))
      (hended : (streamed s.fan q).any isRun) :
      Move limits s (.leave k) { s with fan := called s.fan (.unsubscribe q) }
  | advance (t : Nat) (order : List Nat) (task : Thread) (fan : Sys)
      (ht : s.fan.tasks[t]? = some task) (htask : isSubscribe task = false)
      (hfan : Fanout.step limits.maxSubscriberQueue s.fan (.advance t order) = some fan) :
      Move limits s (.advance t order) { s with fan := fan }

omit [Interpreter] in
theorem set_getElem?_self {α : Type*} {xs : List α} {k : Nat} {x : α} (h : xs[k]? = some x) :
    xs.set k x = xs := by
  obtain ⟨hk, rfl⟩ := List.getElem?_eq_some_iff.mp h
  exact List.set_getElem_self hk

theorem step_move {limits : Limits} {s s' : State} {a : Act} (h : step limits s a = some s') :
    Move limits s a s' := by
  obtain ⟨s1, hact, hfan⟩ := Option.bind_eq_some_iff.mp h
  cases a with
  | register =>
      simp only [fanAct, Option.some.injEq] at hfan
      subst hfan
      simp only [act] at hact
      split at hact
      next hstage =>
        cases hact
        exact .register hstage
      next => simp at hact
  | sandboxFails message =>
      simp only [fanAct, Option.some.injEq] at hfan
      subst hfan
      simp only [act] at hact
      split at hact
      next hstage =>
        cases hact
        exact .sandboxFails message _ hstage
      next => simp at hact
  | line line =>
      simp only [fanAct, Option.some.injEq] at hfan
      subst hfan
      simp only [act] at hact
      split at hact
      next hstage =>
        split at hact
        next hgo =>
          rw [Bool.and_eq_true, List.isEmpty_iff] at hgo
          cases hact
          exact .line line hstage hgo.1 hgo.2
        next => simp at hact
      next => simp at hact
  | send =>
      simp only [act] at hact
      split at hact
      next payload outbox hstage hout =>
        split at hact
        next hidle =>
          cases hact
          simp only [fanAct, hout, List.head?_cons, Option.map_some] at hfan
          cases hfan
          exact .send payload outbox hstage hout hidle
        next => simp at hact
      next => simp at hact
  | cancel =>
      simp only [act] at hact
      simp only [fanAct] at hfan
      split at hact
      next hgo =>
        rw [if_pos hgo] at hfan
        rw [Bool.and_eq_true, beq_iff_eq] at hgo
        cases hact
        cases hfan
        exact .cancel hgo.1 hgo.2
      next hno =>
        rw [if_neg hno] at hfan
        cases hact
        cases hfan
        refine .refuse fun ha hr => hno ?_
        rw [ha, hr]
        rfl
  | finish outcome =>
      simp only [fanAct, Option.some.injEq] at hfan
      subst hfan
      simp only [act] at hact
      split at hact
      next hstage =>
        split at hact
        next hgo =>
          rw [Bool.and_eq_true, List.isEmpty_iff] at hgo
          cases hact
          exact .finish outcome _ hstage hgo.1 hgo.2
        next => simp at hact
      next => simp at hact
  | commit =>
      simp only [fanAct, Option.some.injEq] at hfan
      subst hfan
      simp only [act] at hact
      split at hact
      next outcome finalState events hstage =>
        split at hact
        next event hrec =>
          cases hact
          exact .commit outcome finalState events hstage
        next e hrec =>
          cases hact
          exact .rollback outcome finalState events hstage (by simp [hrec])
      next => simp at hact
  | close =>
      simp only [act] at hact
      split at hact
      next finalState hstage =>
        cases hact
        simp only [fanAct, hstage] at hfan
        cases hfan
        exact .close finalState hstage
      next => simp at hact
  | load sinceSeq =>
      cases hact
      cases hfan
      exact .load sinceSeq
  | subscribe k =>
      simp only [act] at hact
      split at hact
      next row sinceSeq hclient =>
        cases hact
        simp only [fanAct, hclient] at hfan
        cases hfan
        exact .subscribe k row sinceSeq hclient
      next => simp at hact
  | attach k =>
      simp only [act] at hact
      split at hact
      next row sinceSeq t hclient =>
        simp only [fanAct, hclient, Option.map_eq_some_iff] at hfan
        obtain ⟨fan, hfan, rfl⟩ := hfan
        split at hact
        next sinceSeq' ht =>
          split at hact
          next =>
            cases hact
            have hmove : Move limits s (.attach k)
                { setClient s k (.attaching row sinceSeq t) with fan := fan } :=
              .lookUp k t row sinceSeq sinceSeq' _ fan hclient ht (.inl rfl) hfan
            simpa [setClient, set_getElem?_self hclient] using hmove
          next hactive =>
            cases hact
            exact .lookUp k t row sinceSeq sinceSeq' _ fan hclient ht
              (.inr ⟨by simpa using hactive, rfl⟩) hfan
        next sinceSeq' ht =>
          cases hact
          exact .attach k t row sinceSeq sinceSeq' fan hclient ht hfan
        next => simp at hact
      next => simp at hact
  | take k =>
      simp only [act] at hact
      split at hact
      next q hclient =>
        simp only [fanAct, hclient, Option.map_eq_some_iff] at hfan
        obtain ⟨fan, hfan, rfl⟩ := hfan
        split at hact
        next => simp at hact
        next hopen =>
          cases hact
          exact .take k q fan hclient (by simpa using hopen) hfan
      next => simp at hact
  | leave k =>
      simp only [act] at hact
      split at hact
      next q hclient =>
        simp only [fanAct, hclient] at hfan
        cases hfan
        split at hact
        next hended =>
          cases hact
          exact .leave k q hclient hended
        next => simp at hact
      next => simp at hact
  | advance t order =>
      simp only [fanAct, Option.map_eq_some_iff] at hfan
      obtain ⟨fan, hfan, rfl⟩ := hfan
      simp only [act] at hact
      split at hact
      next task ht =>
        split at hact
        next => simp at hact
        next htask =>
          cases hact
          exact .advance t order task fan ht (by simpa using htask) hfan
      next => simp at hact

theorem step_fan {limits : Limits} {s s' : State} {a : Act} (h : step limits s a = some s') :
    s'.fan = s.fan ∨ s'.fan = { s.fan with active := true } ∨
      ∃ a', fanAct s a = some a' ∧
        Fanout.step limits.maxSubscriberQueue s.fan a' = some s'.fan := by
  obtain ⟨s1, hact, hfan⟩ := Option.bind_eq_some_iff.mp h
  cases ha : fanAct s a with
  | none =>
      have hm := step_move h
      cases hm with
      | register => exact .inr (.inl rfl)
      | send payload outbox hstage hout hidle => simp [fanAct, hout] at ha
      | cancel hactive hrow => simp [fanAct, hactive, hrow] at ha
      | close finalState hstage => simp [fanAct, hstage] at ha
      | subscribe k row sinceSeq hclient => simp [fanAct, hclient] at ha
      | lookUp k t row sinceSeq sinceSeq' client fan hclient => simp [fanAct, hclient] at ha
      | attach k t row sinceSeq sinceSeq' fan hclient => simp [fanAct, hclient] at ha
      | take k q fan hclient => simp [fanAct, hclient] at ha
      | leave k q hclient => simp [fanAct, hclient] at ha
      | advance t order => simp [fanAct] at ha
      | _ => exact .inl rfl
  | some a' =>
      simp only [ha, Option.map_eq_some_iff] at hfan
      obtain ⟨fan, hfan, rfl⟩ := hfan
      exact .inr (.inr ⟨a', rfl, hfan⟩)

end Interpreter

end AgentWeb.Session
