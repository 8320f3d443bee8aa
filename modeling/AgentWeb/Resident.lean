import AgentWeb.Interleaving
import AgentWeb.PyText
import Mathlib.Logic.Function.Basic

namespace AgentWeb.Resident

open PyText Transitions Interleaving

/-- The `ready` line of a harness, parsed. -/
structure Handshake where
  protocolVersion : Int
  capabilities : List Str

def supportedProtocolVersions : List Int := [1]

def Handshake.supported (h : Handshake) : Bool :=
  supportedProtocolVersions.contains h.protocolVersion

def Handshake.has (h : Handshake) (capability : Str) : Bool := h.capabilities.contains capability

def capHello : Str := "hello"

def capOpId : Str := "op_id"

/-- What the host takes from a transport before a run, and the ops it writes
there. `opId` tells whether the op carries a correlation id; `hello` always
does. A `hello` is lost when its write raises. -/
inductive Entry
  | ready (handshake : Handshake)
  | hello
  | helloLost
  | submit (runId : Nat) (opId : Bool)
  | relay (opId : Bool)

structure Transport where
  sandboxId : Nat
  log : List Entry
  closed : Bool

structure Meta where
  lastUsed : Int
  readyOk : Bool := false
  greeted : Bool := false
  handshake : Option Handshake := none

/-- The maps of a `ResidentRunner` and the objects they name. Sandboxes and runs
are named by numbers, transports and exec locks by their place among those ever
made. The meta of a sandbox outlives its key, since an exec keeps a reference
to it. The write locks only make one write at a time, so of them the keys are
kept. `named` lists the sandboxes some caller has named. -/
structure Registry where
  clock : Int
  named : List Nat
  sandboxes : List Nat
  metas : Nat → Meta
  transports : Nat → Option Nat
  locks : Nat → Bool
  liveRun : Nat → Option (Option Nat)
  execLocks : Nat → Option Nat
  lockHeld : List Bool
  spawned : List Transport

def Registry.initial (clock : Int) (named : List Nat) : Registry :=
  ⟨clock, named, [], fun _ => { lastUsed := clock }, fun _ => none, fun _ => false, fun _ => none,
    fun _ => none, [], []⟩

namespace Registry

/-- The run in the live slot. A missing key reads as an empty slot. -/
def live (g : Registry) (sid : Nat) : Option Nat := (g.liveRun sid).join

def log (g : Registry) (t : Nat) : List Entry := (g.spawned[t]?).elim [] Transport.log

def setMeta (g : Registry) (sid : Nat) (f : Meta → Meta) : Registry :=
  { g with metas := Function.update g.metas sid (f (g.metas sid)) }

/-- The first section of `create`. -/
def enter (g : Registry) (sid : Nat) : Registry :=
  { g with
    sandboxes := g.sandboxes ++ [sid]
    metas := Function.update g.metas sid { lastUsed := g.clock } }

def spawnTransport (g : Registry) (sid : Nat) : Registry :=
  { g with spawned := g.spawned ++ [⟨sid, [], false⟩] }

def insertLock (g : Registry) (sid : Nat) : Registry :=
  { g with
    execLocks := Function.update g.execLocks sid (some g.lockHeld.length)
    lockHeld := g.lockHeld ++ [false] }

def register (g : Registry) (sid t : Nat) (fresh : Bool) : Registry :=
  let g := { g with
    transports := Function.update g.transports sid (some t)
    locks := Function.update g.locks sid true }
  if fresh then { g with liveRun := Function.update g.liveRun sid (some none) }.insertLock sid
  else g

/-- `_detach`. The transport it pops is still to be closed. -/
def detach (g : Registry) (sid : Nat) : Registry :=
  { g with
    sandboxes := g.sandboxes.filter (· ≠ sid)
    transports := Function.update g.transports sid none
    locks := Function.update g.locks sid false
    liveRun := Function.update g.liveRun sid none
    execLocks := Function.update g.execLocks sid none }

/-- Whether `_detach_if` detaches. -/
def detaches (g : Registry) (sid : Nat) (predicate : Meta → Option Nat → Bool) : Bool :=
  g.sandboxes.contains sid && predicate (g.metas sid) (g.live sid)

/-- The predicate of `_detach_if_idle`. -/
def idle (ttl now : Int) (m : Meta) (live : Option Nat) : Bool :=
  live.isNone && ttl < now - m.lastUsed

/-- The maps after `_retire_transport`, which still has to close the transport. -/
def retire (g : Registry) (sid t : Nat) : Registry :=
  let g := if g.transports sid = some t then
    { g with
      transports := Function.update g.transports sid none
      locks := Function.update g.locks sid false }
    else g
  g.setMeta sid fun m => { m with readyOk := false, greeted := false }

def touch (g : Registry) (sid : Nat) : Registry :=
  if sid ∈ g.sandboxes then g.setMeta sid fun m => { m with lastUsed := g.clock } else g

def capabilities (g : Registry) (sid : Nat) : List Str :=
  if sid ∈ g.sandboxes then ((g.metas sid).handshake.map (·.capabilities)).getD [] else []

/-- Whether `_tag` adds a correlation id. -/
def tag (g : Registry) (sid : Nat) : Bool := (g.capabilities sid).contains capOpId

def claimLiveRun (g : Registry) (sid runId : Nat) : Registry :=
  { g with liveRun := Function.update g.liveRun sid (some (some runId)) }

def releaseLiveRun (g : Registry) (sid : Nat) : Registry :=
  { g with
    liveRun := Function.update g.liveRun sid (if sid ∈ g.sandboxes then some none else none) }

def setLock (g : Registry) (l : Nat) (held : Bool) : Registry :=
  { g with lockHeld := g.lockHeld.set l held }

def write (g : Registry) (t : Nat) (e : Entry) : Registry :=
  { g with spawned := g.spawned.modify t fun x => { x with log := x.log ++ [e] } }

def close (g : Registry) (t : Nat) : Registry :=
  { g with spawned := g.spawned.modify t fun x => { x with closed := true } }

/-- The ready line is consumed and recorded. -/
def acceptHandshake (g : Registry) (sid t : Nat) (h : Handshake) : Registry :=
  (g.write t (.ready h)).setMeta sid fun m => { m with handshake := some h }

end Registry

/-- How a call ends. `no` is False, `notFound` a `SandboxNotFoundError`,
`raised` any other exception. -/
inductive Answer
  | done
  | no
  | notFound
  | raised
  | reaped (destroyed : List Nat)

/-- An `exec_run` that has looked up its sandbox and its exec lock. -/
structure Turn where
  sandboxId : Nat
  runId : Nat
  execLock : Nat

/-- Where an `exec_run` goes on after it has closed a transport. -/
inductive Exit
  | respawn
  | detachVanished
  | leave (answer : Answer)

/-- Where an `exec_run` stands that waits for its exec lock or holds it. -/
inductive Phase
  | acquire
  | liveCheck
  | prepare
  | aliveCheck (t : Nat)
  | readReady (t : Nat)
  | ping (t : Nat)
  | probe (t : Nat) (probed : Option Nat)
  | retire (t : Nat) (next : Exit)
  | closing (t : Option Nat) (next : Exit)
  | respawn
  | awaitReady (t : Nat)
  | register (t : Nat)
  | detachVanished
  | touch (t : Nat)
  | negotiate (t : Nat)
  | awaitHello (t : Nat)
  | claim (t : Nat)
  | tag (t : Nat)
  | submit (t : Nat) (opId : Bool)
  | pump (t : Nat)
  | release (answer : Answer)
  | leave (answer : Answer)

def Exit.phase : Exit → Phase
  | .respawn => .respawn
  | .detachVanished => .detachVanished
  | .leave answer => .leave answer

/-- Where a call of the runner stands: before its next section under the lock
or its next wait for something outside. `relay` is `cancel` and
`deliver_answer`, `closing` ends `destroy` and `destroy_if_running`. -/
inductive Thread
  | create (sid : Nat)
  | spawn (sid : Nat)
  | adopt (sid t : Nat)
  | drain (sid : Nat)
  | destroy (sid : Nat)
  | destroyIfRunning (sid runId : Nat)
  | reapIdle (ttl : Int)
  | listing (ttl now : Int)
  | sweep (ttl now : Int) (candidates destroyed : List Nat)
  | sweepClose (t : Option Nat) (ttl now : Int) (candidates destroyed : List Nat)
  | closing (t : Option Nat) (answer : Answer)
  | touch (sid : Nat)
  | exists (sid : Nat)
  | relay (sid runId : Nat)
  | relayAlive (sid t : Nat)
  | relayTouch (sid t : Nat)
  | relayTag (sid t : Nat)
  | relaySend (sid t : Nat) (opId : Bool)
  | execRun (sid runId : Nat)
  | insertLock (sid runId : Nat)
  | turn (x : Turn) (p : Phase)
  | returned (answer : Answer)

/-- What comes from outside in a step: the harness, the operating system or the
settings. -/
inductive Reply
  | ok
  | fails
  | raises
  | handshake (h : Handshake)

open Registry in
/-- `_exec_run_locked`, with `_prepare_transport`, `_respawn` and `_negotiate`. -/
def advanceTurn (g : Registry) (reply : Reply) (x : Turn) : Phase → Option (Registry × Thread)
  | .acquire =>
      if g.lockHeld[x.execLock]? = some false then
        some (g.setLock x.execLock true, .turn x .liveCheck)
      else none
  | .liveCheck =>
      some (g, .turn x (if (g.live x.sandboxId).isSome then .leave .raised else .prepare))
  | .prepare => match g.transports x.sandboxId with
    | none => some (g, .turn x .respawn)
    | some t => some (g, .turn x (.aliveCheck t))
  | .aliveCheck t => match reply with
    | .ok => some (g, .turn x (if (g.metas x.sandboxId).readyOk then .ping t else .readReady t))
    | _ => some (g, .turn x .respawn)
  | .readReady t => match reply with
    | .handshake h =>
        let g := g.acceptHandshake x.sandboxId t h
        if h.supported then
          some (g.setMeta x.sandboxId fun m => { m with readyOk := true }, .turn x (.touch t))
        else some (g, .turn x (.retire t (.leave .done)))
    | .raises => some (g, .turn x (.leave .raised))
    | _ => some (g, .turn x (.leave .done))
  | .ping t => match reply with
    | .ok =>
        if (g.live x.sandboxId).isSome then some (g, .turn x (.touch t))
        else some (g, .turn x (.probe t (g.transports x.sandboxId)))
    -- a probe timeout that is not positive switches the probe off
    | _ => some (g, .turn x (.touch t))
  | .probe t probed => match probed, reply with
    | some _, .ok => some (g, .turn x (.touch t))
    | some _, .raises => some (g, .turn x (.leave .raised))
    | _, _ => some (g, .turn x (.retire t .respawn))
  | .retire t next => some (g.retire x.sandboxId t, .turn x (.closing (some t) next))
  | .closing none next => some (g, .turn x next.phase)
  | .closing (some t) next => match reply with
    | .raises => some (g.close t, .turn x (.leave .raised))
    | _ => some (g.close t, .turn x next.phase)
  | .respawn => match reply with
    | .ok => some (g.spawnTransport x.sandboxId, .turn x (.awaitReady g.spawned.length))
    | _ => some (g, .turn x (.leave .done))
  | .awaitReady t => match reply with
    | .handshake h =>
        let g := g.acceptHandshake x.sandboxId t h
        some (g, .turn x (if h.supported then .register t else .retire t (.leave .done)))
    | .raises => some (g, .turn x (.leave .raised))
    -- no handshake: the transport is neither registered nor closed
    | _ => some (g, .turn x (.leave .done))
  | .register t =>
      if x.sandboxId ∈ g.sandboxes then
        some ((g.register x.sandboxId t false).setMeta x.sandboxId
          fun m => { m with readyOk := true }, .turn x (.touch t))
      else some (g, .turn x (.closing (some t) .detachVanished))
  | .detachVanished =>
      some (g.detach x.sandboxId,
        .turn x (.closing (g.transports x.sandboxId) (.leave .notFound)))
  | .touch t => some (g.touch x.sandboxId, .turn x (.negotiate t))
  | .negotiate t =>
      let m := g.metas x.sandboxId
      if m.greeted || !m.handshake.any (·.has capHello) then some (g, .turn x (.claim t))
      else
        let g := g.setMeta x.sandboxId fun m => { m with greeted := true }
        match reply with
        | .ok => some (g.write t .hello, .turn x (.awaitHello t))
        | _ => some (g.write t .helloLost, .turn x (.claim t))
  | .awaitHello t => match reply with
    | .fails => some (g, .turn x (.retire t (.leave .done)))
    | .raises => some (g, .turn x (.leave .raised))
    -- also without an answer
    | _ => some (g, .turn x (.claim t))
  | .claim t =>
      if x.sandboxId ∈ g.sandboxes then
        some (g.claimLiveRun x.sandboxId x.runId, .turn x (.tag t))
      else some (g, .turn x (.leave .notFound))
  | .tag t => some (g, .turn x (.submit t (g.tag x.sandboxId)))
  | .submit t opId => match reply with
    | .ok => some (g.write t (.submit x.runId opId), .turn x (.pump t))
    | .raises => some (g, .turn x (.release .raised))
    | _ => some (g, .turn x (.release .done))
  | .pump _ => match reply with
    | .raises => some (g, .turn x (.release .raised))
    | _ => some (g, .turn x (.release .done))
  | .release answer => some (g.releaseLiveRun x.sandboxId, .turn x (.leave answer))
  | .leave answer => some (g.setLock x.execLock false, .returned answer)

open Registry in
def advance (g : Registry) (reply : Reply) : Thread → Option (Registry × Thread)
  | .create sid => match reply with
    -- `_new_meta` may raise
    | .raises => some (g, .returned .raised)
    | _ => some (g.enter sid, .spawn sid)
  | .spawn sid => match reply with
    | .ok => some (g.spawnTransport sid, .adopt sid g.spawned.length)
    | _ => some (g, .returned .done)
  | .adopt sid t => some (g.register sid t true, .drain sid)
  -- the thread that drains stderr may fail to start
  | .drain _ => match reply with
    | .raises => some (g, .returned .raised)
    | _ => some (g, .returned .done)
  | .destroy sid => some (g.detach sid, .closing (g.transports sid) .done)
  | .destroyIfRunning sid runId =>
      if g.detaches sid fun _ live => live = some runId then
        some (g.detach sid, .closing (g.transports sid) .done)
      else some (g, .returned .no)
  | .reapIdle ttl => some (g, .listing ttl g.clock)
  | .listing ttl now => some (g, .sweep ttl now g.sandboxes [])
  | .sweep ttl now (sid :: candidates) destroyed =>
      if g.detaches sid (idle ttl now) then
        some (g.detach sid,
          .sweepClose (g.transports sid) ttl now candidates (destroyed ++ [sid]))
      else some (g, .sweep ttl now candidates destroyed)
  | .sweep _ _ [] destroyed => some (g, .returned (.reaped destroyed))
  | .sweepClose none ttl now candidates destroyed =>
      some (g, .sweep ttl now candidates destroyed)
  | .sweepClose (some t) ttl now candidates destroyed => match reply with
    | .raises => some (g.close t, .returned .raised)
    | _ => some (g.close t, .sweep ttl now candidates destroyed)
  | .closing none answer => some (g, .returned answer)
  | .closing (some t) answer => match reply with
    | .raises => some (g.close t, .returned .raised)
    | _ => some (g.close t, .returned answer)
  | .touch sid => some (g.touch sid, .returned .done)
  | .exists sid => some (g, .returned (if sid ∈ g.sandboxes then .done else .no))
  | .relay sid runId => match g.transports sid with
    | none => some (g, .returned .no)
    | some t =>
        if g.live sid = some runId then some (g, .relayAlive sid t) else some (g, .returned .no)
  | .relayAlive sid t => match reply with
    | .ok => some (g, .relayTouch sid t)
    | _ => some (g, .returned .no)
  | .relayTouch sid t => some (g.touch sid, .relayTag sid t)
  | .relayTag sid t => some (g, .relaySend sid t (g.tag sid))
  | .relaySend _ t opId => match reply with
    | .ok => some (g.write t (.relay opId), .returned .done)
    | _ => some (g, .returned .no)
  | .execRun sid runId =>
      if sid ∈ g.sandboxes then match g.execLocks sid with
        | some l => some (g, .turn ⟨sid, runId, l⟩ .acquire)
        -- missing only when the spawn of `create` failed
        | none => some (g, .insertLock sid runId)
      else some (g, .returned .notFound)
  | .insertLock sid runId =>
      some (g.insertLock sid, .turn ⟨sid, runId, g.lockHeld.length⟩ .acquire)
  | .turn x p => advanceTurn g reply x p
  | .returned _ => none

inductive Call
  | create (sid : Nat)
  | destroy (sid : Nat)
  | destroyIfRunning (sid runId : Nat)
  | reapIdle (ttl : Int)
  | touch (sid : Nat)
  | exists (sid : Nat)
  | relay (sid runId : Nat)
  | execRun (sid runId : Nat)

def Call.thread : Call → Thread
  | .create sid => .create sid
  | .destroy sid => .destroy sid
  | .destroyIfRunning sid runId => .destroyIfRunning sid runId
  | .reapIdle ttl => .reapIdle ttl
  | .touch sid => .touch sid
  | .exists sid => .exists sid
  | .relay sid runId => .relay sid runId
  | .execRun sid runId => .execRun sid runId

def Call.sandboxId : Call → Option Nat
  | .create sid | .destroy sid | .destroyIfRunning sid _ | .touch sid | .exists sid
  | .relay sid _ | .execRun sid _ => some sid
  | .reapIdle _ => none

def Thread.creates : Thread → Option Nat
  | .create sid | .spawn sid | .adopt sid _ | .drain sid => some sid
  | _ => none

abbrev State := Pool Registry Thread

/-- `create` draws an id nobody has named, and until it returns only the sweep
can meet the sandbox. -/
def Call.allowed (s : State) : Call → Bool
  | .create sid => !s.shared.named.contains sid
  | c => c.sandboxId.all fun sid => s.threads.all fun th => th.creates != some sid

/-- A new call, a step of thread `k`, or the clock moves. -/
inductive Act
  | call (c : Call)
  | advance (k : Nat) (reply : Reply)
  | tick (now : Int)

def State.arrive (s : State) (c : Call) : State :=
  ⟨{ s.shared with named := s.shared.named ++ c.sandboxId.toList }, s.threads ++ [c.thread]⟩

def step (s : State) : Act → Option State
  | .call c => if c.allowed s then some (s.arrive c) else none
  | .advance k reply => s.move advance k reply
  | .tick now => some ⟨{ s.shared with clock := now }, s.threads⟩

def State.initial (clock : Int) (named : List Nat) : State := ⟨.initial clock named, []⟩

namespace Registry

theorem touch_frame (g : Registry) (sid : Nat) :
    g.touch sid = { g with metas := (g.touch sid).metas } := by
  rw [touch]
  split <;> rfl

theorem retire_frame (g : Registry) (sid t : Nat) :
    g.retire sid t = { g with
      metas := (g.retire sid t).metas
      transports := (g.retire sid t).transports
      locks := (g.retire sid t).locks } := by
  rw [retire]
  split <;> rfl

theorem retire_transports (g : Registry) (sid t other : Nat) :
    (g.retire sid t).transports other =
      if other = sid ∧ g.transports sid = some t then none else g.transports other := by
  rw [retire]
  by_cases ht : g.transports sid = some t
  · by_cases hne : other = sid <;> simp [ht, hne, setMeta]
  · simp [ht, setMeta]

theorem retire_locks (g : Registry) (sid t other : Nat) :
    (g.retire sid t).locks other =
      if other = sid ∧ g.transports sid = some t then false else g.locks other := by
  rw [retire]
  by_cases ht : g.transports sid = some t
  · by_cases hne : other = sid <;> simp [ht, hne, setMeta]
  · simp [ht, setMeta]

end Registry

/-- The steps of an `exec_run` that only read. -/
inductive Goes (g : Registry) (reply : Reply) (x : Turn) : Phase → Phase → Prop
  | busy (h : (g.live x.sandboxId).isSome) : Goes g reply x .liveCheck (.leave .raised)
  | free (h : g.live x.sandboxId = none) : Goes g reply x .liveCheck .prepare
  | missing (h : g.transports x.sandboxId = none) : Goes g reply x .prepare .respawn
  | found (t : Nat) (h : g.transports x.sandboxId = some t) : Goes g reply x .prepare (.aliveCheck t)
  | dead (t : Nat) : Goes g reply x (.aliveCheck t) .respawn
  | warm (t : Nat) (h : (g.metas x.sandboxId).readyOk = true) :
      Goes g reply x (.aliveCheck t) (.ping t)
  | cold (t : Nat) (h : (g.metas x.sandboxId).readyOk = false) :
      Goes g reply x (.aliveCheck t) (.readReady t)
  | unready (t : Nat) (a : Answer) : Goes g reply x (.readReady t) (.leave a)
  | unprobed (t : Nat) : Goes g reply x (.ping t) (.touch t)
  | ping (t : Nat) : Goes g reply x (.ping t) (.probe t (g.transports x.sandboxId))
  | pong (t p : Nat) : Goes g reply x (.probe t (some p)) (.touch t)
  | probeRaises (t p : Nat) : Goes g reply x (.probe t (some p)) (.leave .raised)
  | wedged (t : Nat) (p : Option Nat) : Goes g reply x (.probe t p) (.retire t .respawn)
  | closed (next : Exit) : Goes g reply x (.closing none next) next.phase
  | spawnFails : Goes g reply x .respawn (.leave .done)
  | stillborn (t : Nat) (a : Answer) (h : ∀ handshake, reply ≠ .handshake handshake) :
      Goes g reply x (.awaitReady t) (.leave a)
  | vanished (t : Nat) (h : x.sandboxId ∉ g.sandboxes) :
      Goes g reply x (.register t) (.closing (some t) .detachVanished)
  | greeted (t : Nat) (h : (g.metas x.sandboxId).greeted = true ∨
      (g.metas x.sandboxId).handshake.any (·.has capHello) = false) :
      Goes g reply x (.negotiate t) (.claim t)
  | refused (t : Nat) : Goes g reply x (.awaitHello t) (.retire t (.leave .done))
  | helloRaises (t : Nat) : Goes g reply x (.awaitHello t) (.leave .raised)
  | welcome (t : Nat) : Goes g reply x (.awaitHello t) (.claim t)
  | gone (t : Nat) (h : x.sandboxId ∉ g.sandboxes) : Goes g reply x (.claim t) (.leave .notFound)
  | tag (t : Nat) : Goes g reply x (.tag t) (.submit t (g.tag x.sandboxId))
  | unsent (t : Nat) (opId : Bool) (a : Answer) : Goes g reply x (.submit t opId) (.release a)
  | ended (t : Nat) (a : Answer) : Goes g reply x (.pump t) (.release a)

inductive Reads (g : Registry) (reply : Reply) : Thread → Thread → Prop
  | newMetaFails (sid : Nat) : Reads g reply (.create sid) (.returned .raised)
  | spawnFails (sid : Nat) : Reads g reply (.spawn sid) (.returned .done)
  | drained (sid : Nat) : Reads g reply (.drain sid) (.returned .done)
  | drainFails (sid : Nat) (h : reply = .raises) : Reads g reply (.drain sid) (.returned .raised)
  | spared (sid runId : Nat) (h : g.detaches sid (fun _ live => live = some runId) = false) :
      Reads g reply (.destroyIfRunning sid runId) (.returned .no)
  | reapIdle (ttl : Int) : Reads g reply (.reapIdle ttl) (.listing ttl g.clock)
  | listing (ttl now : Int) : Reads g reply (.listing ttl now) (.sweep ttl now g.sandboxes [])
  | skip (ttl now : Int) (sid : Nat) (candidates destroyed : List Nat)
      (h : g.detaches sid (Registry.idle ttl now) = false) :
      Reads g reply (.sweep ttl now (sid :: candidates) destroyed)
        (.sweep ttl now candidates destroyed)
  | swept (ttl now : Int) (destroyed : List Nat) :
      Reads g reply (.sweep ttl now [] destroyed) (.returned (.reaped destroyed))
  | sweepOn (ttl now : Int) (candidates destroyed : List Nat) :
      Reads g reply (.sweepClose none ttl now candidates destroyed)
        (.sweep ttl now candidates destroyed)
  | closed (a : Answer) : Reads g reply (.closing none a) (.returned a)
  | here (sid : Nat) (h : sid ∈ g.sandboxes) : Reads g reply (.exists sid) (.returned .done)
  | away (sid : Nat) (h : sid ∉ g.sandboxes) : Reads g reply (.exists sid) (.returned .no)
  | relay (sid runId t : Nat) (ht : g.transports sid = some t) (hl : g.live sid = some runId) :
      Reads g reply (.relay sid runId) (.relayAlive sid t)
  | notLive (sid runId : Nat) : Reads g reply (.relay sid runId) (.returned .no)
  | relayAlive (sid t : Nat) : Reads g reply (.relayAlive sid t) (.relayTouch sid t)
  | relayDead (sid t : Nat) : Reads g reply (.relayAlive sid t) (.returned .no)
  | relayTag (sid t : Nat) : Reads g reply (.relayTag sid t) (.relaySend sid t (g.tag sid))
  | relayLost (sid t : Nat) (opId : Bool) :
      Reads g reply (.relaySend sid t opId) (.returned .no)
  | lookUp (sid runId l : Nat) (h : sid ∈ g.sandboxes) (hl : g.execLocks sid = some l) :
      Reads g reply (.execRun sid runId) (.turn ⟨sid, runId, l⟩ .acquire)
  | lockless (sid runId : Nat) (h : sid ∈ g.sandboxes) (hl : g.execLocks sid = none) :
      Reads g reply (.execRun sid runId) (.insertLock sid runId)
  | unknown (sid runId : Nat) (h : sid ∉ g.sandboxes) :
      Reads g reply (.execRun sid runId) (.returned .notFound)
  | turn (x : Turn) (p p' : Phase) (h : Goes g reply x p p') :
      Reads g reply (.turn x p) (.turn x p')

open Registry in
inductive Move (g : Registry) (reply : Reply) : Thread → Registry → Thread → Prop
  | read (th th' : Thread) (h : Reads g reply th th') : Move g reply th g th'
  | enter (sid : Nat) : Move g reply (.create sid) (g.enter sid) (.spawn sid)
  | spawn (sid : Nat) :
      Move g reply (.spawn sid) (g.spawnTransport sid) (.adopt sid g.spawned.length)
  | adopt (sid t : Nat) : Move g reply (.adopt sid t) (g.register sid t true) (.drain sid)
  | destroy (sid : Nat) :
      Move g reply (.destroy sid) (g.detach sid) (.closing (g.transports sid) .done)
  | fell (sid runId : Nat) (h : sid ∈ g.sandboxes) (hl : g.live sid = some runId) :
      Move g reply (.destroyIfRunning sid runId) (g.detach sid) (.closing (g.transports sid) .done)
  | take (ttl now : Int) (sid : Nat) (candidates destroyed : List Nat) (h : sid ∈ g.sandboxes)
      (hl : g.live sid = none) (hstale : ttl < now - (g.metas sid).lastUsed) :
      Move g reply (.sweep ttl now (sid :: candidates) destroyed) (g.detach sid)
        (.sweepClose (g.transports sid) ttl now candidates (destroyed ++ [sid]))
  | sweepClose (t : Nat) (ttl now : Int) (candidates destroyed : List Nat) (th : Thread)
      (h : th = .sweep ttl now candidates destroyed ∨ th = .returned .raised) :
      Move g reply (.sweepClose (some t) ttl now candidates destroyed) (g.close t) th
  | closing (t : Nat) (a a' : Answer) (h : a' = a ∨ a' = .raised) :
      Move g reply (.closing (some t) a) (g.close t) (.returned a')
  | touch (sid : Nat) : Move g reply (.touch sid) (g.touch sid) (.returned .done)
  | relayTouch (sid t : Nat) :
      Move g reply (.relayTouch sid t) (g.touch sid) (.relayTag sid t)
  | relaySend (sid t : Nat) (opId : Bool) :
      Move g reply (.relaySend sid t opId) (g.write t (.relay opId)) (.returned .done)
  | insertLock (sid runId : Nat) :
      Move g reply (.insertLock sid runId) (g.insertLock sid)
        (.turn ⟨sid, runId, g.lockHeld.length⟩ .acquire)
  | acquire (x : Turn) (h : g.lockHeld[x.execLock]? = some false) :
      Move g reply (.turn x .acquire) (g.setLock x.execLock true) (.turn x .liveCheck)
  | ready (x : Turn) (t : Nat) (h : Handshake) (hr : reply = .handshake h)
      (hs : h.supported = true) :
      Move g reply (.turn x (.readReady t))
        ((g.acceptHandshake x.sandboxId t h).setMeta x.sandboxId
          fun m => { m with readyOk := true })
        (.turn x (.touch t))
  | unsupported (x : Turn) (t : Nat) (h : Handshake) (hr : reply = .handshake h)
      (hs : h.supported = false) :
      Move g reply (.turn x (.readReady t)) (g.acceptHandshake x.sandboxId t h)
        (.turn x (.retire t (.leave .done)))
  | retire (x : Turn) (t : Nat) (next : Exit) :
      Move g reply (.turn x (.retire t next)) (g.retire x.sandboxId t)
        (.turn x (.closing (some t) next))
  | close (x : Turn) (t : Nat) (next : Exit) (p : Phase)
      (h : p = next.phase ∨ p = .leave .raised) :
      Move g reply (.turn x (.closing (some t) next)) (g.close t) (.turn x p)
  | respawn (x : Turn) :
      Move g reply (.turn x .respawn) (g.spawnTransport x.sandboxId)
        (.turn x (.awaitReady g.spawned.length))
  | awaitReady (x : Turn) (t : Nat) (h : Handshake) (hr : reply = .handshake h) (p : Phase)
      (hp : p = .register t ∨ p = .retire t (.leave .done)) :
      Move g reply (.turn x (.awaitReady t)) (g.acceptHandshake x.sandboxId t h) (.turn x p)
  | register (x : Turn) (t : Nat) (h : x.sandboxId ∈ g.sandboxes) :
      Move g reply (.turn x (.register t))
        ((g.register x.sandboxId t false).setMeta x.sandboxId fun m => { m with readyOk := true })
        (.turn x (.touch t))
  | detachVanished (x : Turn) :
      Move g reply (.turn x .detachVanished) (g.detach x.sandboxId)
        (.turn x (.closing (g.transports x.sandboxId) (.leave .notFound)))
  | touchTurn (x : Turn) (t : Nat) :
      Move g reply (.turn x (.touch t)) (g.touch x.sandboxId) (.turn x (.negotiate t))
  | hello (x : Turn) (t : Nat) (h : Handshake) (hr : reply = .ok)
      (hm : (g.metas x.sandboxId).handshake = some h) (hh : h.has capHello = true)
      (hg : (g.metas x.sandboxId).greeted = false) :
      Move g reply (.turn x (.negotiate t))
        ((g.setMeta x.sandboxId fun m => { m with greeted := true }).write t .hello)
        (.turn x (.awaitHello t))
  | helloLost (x : Turn) (t : Nat) (h : Handshake)
      (hm : (g.metas x.sandboxId).handshake = some h) (hh : h.has capHello = true)
      (hg : (g.metas x.sandboxId).greeted = false) :
      Move g reply (.turn x (.negotiate t))
        ((g.setMeta x.sandboxId fun m => { m with greeted := true }).write t .helloLost)
        (.turn x (.claim t))
  | claim (x : Turn) (t : Nat) (h : x.sandboxId ∈ g.sandboxes) :
      Move g reply (.turn x (.claim t)) (g.claimLiveRun x.sandboxId x.runId) (.turn x (.tag t))
  | submit (x : Turn) (t : Nat) (opId : Bool) (hr : reply = .ok) :
      Move g reply (.turn x (.submit t opId)) (g.write t (.submit x.runId opId))
        (.turn x (.pump t))
  | release (x : Turn) (a : Answer) :
      Move g reply (.turn x (.release a)) (g.releaseLiveRun x.sandboxId) (.turn x (.leave a))
  | leave (x : Turn) (a : Answer) :
      Move g reply (.turn x (.leave a)) (g.setLock x.execLock false) (.returned a)

theorem Goes.move {g : Registry} {reply : Reply} {x : Turn} {p p' : Phase}
    (h : Goes g reply x p p') : Move g reply (.turn x p) g (.turn x p') :=
  .read _ _ (.turn x p p' h)

theorem advanceTurn_move {g g' : Registry} {reply : Reply} {x : Turn} {p : Phase} {th' : Thread}
    (h : advanceTurn g reply x p = some (g', th')) : Move g reply (.turn x p) g' th' := by
  cases p with
  | acquire =>
      simp only [advanceTurn] at h
      split at h
      next hl =>
        cases h
        exact .acquire x hl
      next => simp at h
  | liveCheck =>
      cases h
      cases hl : g.live x.sandboxId with
      | none => exact (Goes.free hl).move
      | some r => exact (Goes.busy (by simp [hl])).move
  | prepare =>
      simp only [advanceTurn] at h
      split at h
      next ht =>
        cases h
        exact (Goes.missing ht).move
      next t ht =>
        cases h
        exact (Goes.found t ht).move
  | aliveCheck t =>
      simp only [advanceTurn] at h
      split at h
      next =>
        cases h
        cases hready : (g.metas x.sandboxId).readyOk with
        | true => exact (Goes.warm t hready).move
        | false => exact (Goes.cold t hready).move
      next =>
        cases h
        exact (Goes.dead t).move
  | readReady t =>
      simp only [advanceTurn] at h
      split at h
      next hs =>
        split at h
        next hsup =>
          cases h
          exact .ready x t hs rfl hsup
        next hsup =>
          cases h
          exact .unsupported x t hs rfl (by simpa using hsup)
      next =>
        cases h
        exact (Goes.unready t _).move
      next =>
        cases h
        exact (Goes.unready t _).move
  | ping t =>
      simp only [advanceTurn] at h
      split at h
      next =>
        split at h
        next =>
          cases h
          exact (Goes.unprobed t).move
        next =>
          cases h
          exact (Goes.ping t).move
      next =>
        cases h
        exact (Goes.unprobed t).move
  | probe t probed =>
      simp only [advanceTurn] at h
      split at h
      next p =>
        cases h
        exact (Goes.pong t p).move
      next p =>
        cases h
        exact (Goes.probeRaises t p).move
      next =>
        cases h
        exact (Goes.wedged t probed).move
  | retire t next =>
      cases h
      exact .retire x t next
  | closing t next =>
      cases t with
      | none =>
          cases h
          exact (Goes.closed next).move
      | some t =>
          simp only [advanceTurn] at h
          split at h
          next =>
            cases h
            exact .close x t next _ (.inr rfl)
          next =>
            cases h
            exact .close x t next _ (.inl rfl)
  | respawn =>
      simp only [advanceTurn] at h
      split at h
      next =>
        cases h
        exact .respawn x
      next =>
        cases h
        exact Goes.spawnFails.move
  | awaitReady t =>
      simp only [advanceTurn] at h
      split at h
      next hs =>
        cases h
        refine .awaitReady x t hs rfl _ ?_
        split
        · exact .inl rfl
        · exact .inr rfl
      next =>
        cases h
        exact (Goes.stillborn t _ (by simp)).move
      next hno _ =>
        cases h
        exact (Goes.stillborn t _ (by simpa using hno)).move
  | register t =>
      simp only [advanceTurn] at h
      split at h
      next hmem =>
        cases h
        exact .register x t hmem
      next hmem =>
        cases h
        exact (Goes.vanished t hmem).move
  | detachVanished =>
      cases h
      exact .detachVanished x
  | touch t =>
      cases h
      exact .touchTurn x t
  | negotiate t =>
      simp only [advanceTurn] at h
      split at h
      next hskip =>
        cases h
        rw [Bool.or_eq_true, Bool.not_eq_true'] at hskip
        exact (Goes.greeted t hskip).move
      next hgo =>
        rw [Bool.or_eq_true, not_or, Bool.not_eq_true, Bool.not_eq_true, Bool.not_eq_false',
          Option.any_eq_true] at hgo
        obtain ⟨hgreeted, hs, hmem, hhello⟩ := hgo
        split at h
        next =>
          cases h
          exact .hello x t hs rfl hmem hhello hgreeted
        next =>
          cases h
          exact .helloLost x t hs hmem hhello hgreeted
  | awaitHello t =>
      simp only [advanceTurn] at h
      split at h
      next =>
        cases h
        exact (Goes.refused t).move
      next =>
        cases h
        exact (Goes.helloRaises t).move
      next =>
        cases h
        exact (Goes.welcome t).move
  | claim t =>
      simp only [advanceTurn] at h
      split at h
      next hmem =>
        cases h
        exact .claim x t hmem
      next hmem =>
        cases h
        exact (Goes.gone t hmem).move
  | tag t =>
      cases h
      exact (Goes.tag t).move
  | submit t opId =>
      simp only [advanceTurn] at h
      split at h
      next =>
        cases h
        exact .submit x t opId rfl
      next =>
        cases h
        exact (Goes.unsent t opId _).move
      next =>
        cases h
        exact (Goes.unsent t opId _).move
  | pump t =>
      simp only [advanceTurn] at h
      split at h
      next =>
        cases h
        exact (Goes.ended t _).move
      next =>
        cases h
        exact (Goes.ended t _).move
  | release a =>
      cases h
      exact .release x a
  | leave a =>
      cases h
      exact .leave x a

theorem detaches_eq_true {g : Registry} {sid : Nat} {predicate : Meta → Option Nat → Bool} :
    g.detaches sid predicate = true ↔
      sid ∈ g.sandboxes ∧ predicate (g.metas sid) (g.live sid) = true := by
  rw [Registry.detaches, Bool.and_eq_true, List.contains_iff_mem]

theorem advance_move {g g' : Registry} {reply : Reply} {th th' : Thread}
    (h : advance g reply th = some (g', th')) : Move g reply th g' th' := by
  cases th with
  | create sid =>
      simp only [advance] at h
      split at h
      next =>
        cases h
        exact .read _ _ (.newMetaFails sid)
      next =>
        cases h
        exact .enter sid
  | spawn sid =>
      simp only [advance] at h
      split at h
      next =>
        cases h
        exact .spawn sid
      next =>
        cases h
        exact .read _ _ (.spawnFails sid)
  | adopt sid t =>
      cases h
      exact .adopt sid t
  | drain sid =>
      simp only [advance] at h
      split at h
      next =>
        cases h
        exact .read _ _ (.drainFails sid rfl)
      next =>
        cases h
        exact .read _ _ (.drained sid)
  | destroy sid =>
      cases h
      exact .destroy sid
  | destroyIfRunning sid runId =>
      simp only [advance] at h
      split at h
      next hdet =>
        cases h
        obtain ⟨hmem, hlive⟩ := detaches_eq_true.mp hdet
        exact .fell sid runId hmem (by simpa using hlive)
      next hdet =>
        cases h
        exact .read _ _ (.spared sid runId (by simpa using hdet))
  | reapIdle ttl =>
      cases h
      exact .read _ _ (.reapIdle ttl)
  | listing ttl now =>
      cases h
      exact .read _ _ (.listing ttl now)
  | sweep ttl now candidates destroyed =>
      cases candidates with
      | nil =>
          cases h
          exact .read _ _ (.swept ttl now destroyed)
      | cons sid candidates =>
          simp only [advance] at h
          split at h
          next hdet =>
            cases h
            obtain ⟨hmem, hidle⟩ := detaches_eq_true.mp hdet
            rw [Registry.idle, Bool.and_eq_true, Option.isNone_iff_eq_none, decide_eq_true_eq]
              at hidle
            exact .take ttl now sid candidates destroyed hmem hidle.1 hidle.2
          next hdet =>
            cases h
            exact .read _ _ (.skip ttl now sid candidates destroyed (by simpa using hdet))
  | sweepClose t ttl now candidates destroyed =>
      cases t with
      | none =>
          cases h
          exact .read _ _ (.sweepOn ttl now candidates destroyed)
      | some t =>
          simp only [advance] at h
          split at h
          next =>
            cases h
            exact .sweepClose t ttl now candidates destroyed _ (.inr rfl)
          next =>
            cases h
            exact .sweepClose t ttl now candidates destroyed _ (.inl rfl)
  | closing t a =>
      cases t with
      | none =>
          cases h
          exact .read _ _ (.closed a)
      | some t =>
          simp only [advance] at h
          split at h
          next =>
            cases h
            exact .closing t a _ (.inr rfl)
          next =>
            cases h
            exact .closing t a _ (.inl rfl)
  | touch sid =>
      cases h
      exact .touch sid
  | «exists» sid =>
      cases h
      by_cases hmem : sid ∈ g.sandboxes
      · rw [if_pos hmem]
        exact .read _ _ (.here sid hmem)
      · rw [if_neg hmem]
        exact .read _ _ (.away sid hmem)
  | relay sid runId =>
      simp only [advance] at h
      split at h
      next =>
        cases h
        exact .read _ _ (.notLive sid runId)
      next t ht =>
        split at h
        next hl =>
          cases h
          exact .read _ _ (.relay sid runId t ht hl)
        next =>
          cases h
          exact .read _ _ (.notLive sid runId)
  | relayAlive sid t =>
      simp only [advance] at h
      split at h
      next =>
        cases h
        exact .read _ _ (.relayAlive sid t)
      next =>
        cases h
        exact .read _ _ (.relayDead sid t)
  | relayTouch sid t =>
      cases h
      exact .relayTouch sid t
  | relayTag sid t =>
      cases h
      exact .read _ _ (.relayTag sid t)
  | relaySend sid t opId =>
      simp only [advance] at h
      split at h
      next =>
        cases h
        exact .relaySend sid t opId
      next =>
        cases h
        exact .read _ _ (.relayLost sid t opId)
  | execRun sid runId =>
      simp only [advance] at h
      split at h
      next hmem =>
        split at h
        next l hl =>
          cases h
          exact .read _ _ (.lookUp sid runId l hmem hl)
        next hl =>
          cases h
          exact .read _ _ (.lockless sid runId hmem hl)
      next hmem =>
        cases h
        exact .read _ _ (.unknown sid runId hmem)
  | insertLock sid runId =>
      cases h
      exact .insertLock sid runId
  | turn x p => exact advanceTurn_move h
  | returned a => simp [advance] at h

theorem step_call {s s' : State} {c : Call} (h : step s (.call c) = some s') :
    c.allowed s = true ∧ s' = s.arrive c := by
  simp only [step] at h
  split at h
  next hc => exact ⟨hc, (Option.some.inj h).symm⟩
  next => simp at h

theorem step_advance {s s' : State} {k : Nat} {reply : Reply}
    (h : step s (.advance k reply) = some s') : ∃ th g th', s.threads[k]? = some th ∧
      Move s.shared reply th g th' ∧ s' = ⟨g, s.threads.set k th'⟩ := by
  obtain ⟨th, g, th', hk, hadv, rfl⟩ := move_eq_some.mp h
  exact ⟨th, g, th', hk, advance_move hadv, rfl⟩

theorem step_thread {s s' : State} {a : Act} {k : Nat} {th : Thread}
    (hstep : step s a = some s') (hk : s.threads[k]? = some th) :
    s'.threads[k]? = some th ∨ ∃ reply g th', a = .advance k reply ∧
      Move s.shared reply th g th' ∧ s' = ⟨g, s.threads.set k th'⟩ ∧ s'.threads[k]? = some th' := by
  have hlt := (List.getElem?_eq_some_iff.mp hk).choose
  cases a with
  | tick now =>
      cases hstep
      exact .inl hk
  | call c =>
      obtain ⟨-, rfl⟩ := step_call hstep
      exact .inl ((List.getElem?_append_left hlt).trans hk)
  | advance m reply =>
      obtain ⟨th₀, g, th', hm, hmove, rfl⟩ := step_advance hstep
      by_cases he : m = k
      · subst he
        cases hk.symm.trans hm
        exact .inr ⟨reply, g, th', rfl, hmove, rfl, List.getElem?_set_self hlt⟩
      · exact .inl ((List.getElem?_set_ne he).trans hk)

end AgentWeb.Resident
