import AgentWeb.PyText
import AgentWeb.RingBuffer

namespace AgentWeb.StderrLog

open PyText RingBuffer Newest

/-- The room of `deque(maxlen=200)`. -/
def maxlen : ℕ := 200

abbrev Log := Ring Str maxlen

/-- The stderr lines of one turn, in the order in which the drainer hands them
over: before the turn, on the transport it starts if it has to respawn, and from
its snapshot to its end. -/
structure Turn where
  idle : List Str
  respawned : Option (List Str)
  during : List Str

/-- The buffer at the turn's snapshot. A respawn clears it. -/
def atSnapshot (log : Log) (turn : Turn) : Log :=
  match turn.respawned with
  | none => log.pushAll turn.idle
  | some lines => Ring.empty.pushAll lines

def afterTurn (log : Log) (turn : Turn) : Log := (atSnapshot log turn).pushAll turn.during

def logAfter (earlier : List Turn) : Log := earlier.foldl afterTurn Ring.empty

/-- `list(meta["stderr_log"])[err_from:]`. -/
def reportedLines (earlier : List Turn) (turn : Turn) : List Str :=
  let errFrom := (atSnapshot (logAfter earlier) turn).toList.length
  (afterTurn (logAfter earlier) turn).toList.drop errFrom

def diedMidRun (label : Str) : Str := str "harness " ++ label ++ str " died mid-run"

/-- The `stderr` of the result, once the pump has returned. -/
def execStderr (label : Str) (sawResult timedOut : Bool) (earlier : List Turn) (turn : Turn) : Str :=
  let stderr := (reportedLines earlier turn).flatten
  if !sawResult && !timedOut then if stderr = [] then diedMidRun label else stderr
  else stderr

/-- An exec reports its own stderr, up to the room of the buffer, and nothing
from an earlier turn. -/
structure ReportsOwn (label : Str) (sawResult timedOut : Bool) (earlier : List Turn) (turn : Turn) :
    Prop where
  whole : execStderr label sawResult timedOut earlier turn = (turn.during.rtake maxlen).flatten
  own : reportedLines earlier turn <:+ turn.during

def sinceSpawn (seen : List Str) (turn : Turn) : List Str :=
  match turn.respawned with
  | none => seen ++ turn.idle
  | some lines => lines

def drainedBefore (earlier : List Turn) (turn : Turn) : List Str :=
  sinceSpawn (earlier.foldl (fun seen t => sinceSpawn seen t ++ t.during) []) turn

/-- The newest lines of the turn for which older lines leave no room. -/
def pushedOut (earlier : List Turn) (turn : Turn) : List Str :=
  (turn.during.rtake maxlen).rdrop (maxlen - (drainedBefore earlier turn).length)

theorem toList_empty : (Ring.empty : Log).toList = ([] : List Str).rtake maxlen := rfl

theorem toList_atSnapshot {log : Log} {seen : List Str} (h : log.toList = seen.rtake maxlen)
    (turn : Turn) : (atSnapshot log turn).toList = (sinceSpawn seen turn).rtake maxlen := by
  rw [atSnapshot, sinceSpawn]
  split
  next => exact Ring.toList_pushAll_of_eq h _
  next lines _ => exact Ring.toList_pushAll_of_eq toList_empty lines

theorem toList_afterTurn {log : Log} {seen : List Str} (h : log.toList = seen.rtake maxlen)
    (turn : Turn) :
    (afterTurn log turn).toList = (sinceSpawn seen turn ++ turn.during).rtake maxlen :=
  Ring.toList_pushAll_of_eq (toList_atSnapshot h turn) _

theorem toList_foldl_afterTurn {log : Log} {seen : List Str} (h : log.toList = seen.rtake maxlen)
    (earlier : List Turn) : (earlier.foldl afterTurn log).toList =
      (earlier.foldl (fun seen t => sinceSpawn seen t ++ t.during) seen).rtake maxlen := by
  induction earlier generalizing log seen with
  | nil => exact h
  | cons turn earlier ih =>
      rw [List.foldl_cons, List.foldl_cons]
      exact ih (toList_afterTurn h turn)

theorem reportedLines_eq (earlier : List Turn) (turn : Turn) :
    reportedLines earlier turn =
      turn.during.rtake (maxlen - (drainedBefore earlier turn).length) := by
  have hlog := toList_foldl_afterTurn toList_empty earlier
  exact Ring.drop_toList_pushAll (toList_atSnapshot hlog turn) turn.during

theorem reportedLines_suffix (earlier : List Turn) (turn : Turn) :
    reportedLines earlier turn <:+ turn.during :=
  reportedLines_eq earlier turn ▸ rtake_suffix _ _

theorem pushedOut_append_reportedLines (earlier : List Turn) (turn : Turn) :
    pushedOut earlier turn ++ reportedLines earlier turn = turn.during.rtake maxlen := by
  rw [pushedOut, reportedLines_eq, rdrop_append_rtake (Nat.sub_le _ _)]

theorem flatten_reportedLines_iff (earlier : List Turn) (turn : Turn) :
    (reportedLines earlier turn).flatten = (turn.during.rtake maxlen).flatten ↔
      ∀ line ∈ pushedOut earlier turn, line = [] := by
  rw [← pushedOut_append_reportedLines earlier turn, List.flatten_append,
    List.self_eq_append_left, List.flatten_eq_nil_iff]

/-- A run that dies and whose newest lines, as many as there is room for, are
empty, where its lines happen to be the text that stands in for them. -/
def DiesAsSaid (label : Str) (sawResult timedOut : Bool) (earlier : List Turn) (turn : Turn) :
    Prop :=
  (sawResult = false ∧ timedOut = false) ∧
    (∀ line ∈ turn.during.rtake (maxlen - (drainedBefore earlier turn).length), line = []) ∧
      (turn.during.rtake maxlen).flatten = diedMidRun label

/-- An exec that produced stderr reports it, unless older lines still fill the
buffer so far that lines of its own are pushed out. -/
theorem execStderr_reportsOwn_iff (label : Str) (sawResult timedOut : Bool) (earlier : List Turn)
    (turn : Turn) (hany : (turn.during.rtake maxlen).flatten ≠ []) :
    ReportsOwn label sawResult timedOut earlier turn ↔
      (∀ line ∈ pushedOut earlier turn, line = []) ∨
        DiesAsSaid label sawResult timedOut earlier turn := by
  have hown : ReportsOwn label sawResult timedOut earlier turn ↔
      execStderr label sawResult timedOut earlier turn = (turn.during.rtake maxlen).flatten :=
    ⟨fun h => h.whole, fun h => ⟨h, reportedLines_suffix earlier turn⟩⟩
  rw [hown, ← flatten_reportedLines_iff, DiesAsSaid, ← reportedLines_eq, ← List.flatten_eq_nil_iff,
    execStderr]
  by_cases hdied : sawResult = false ∧ timedOut = false
  · obtain ⟨rfl, rfl⟩ := hdied
    by_cases hnil : (reportedLines earlier turn).flatten = []
    · simp [hnil, hany.symm, eq_comm]
    · simp [hnil]
  · have hstays : (!sawResult && !timedOut) = false := by
      cases sawResult <;> cases timedOut <;> simp at hdied ⊢
    simp [hstays, hdied]

def filling : List Turn := [⟨[], none, List.replicate 190 (str "noise\n")⟩, ⟨[], none, [str "warn\n"]⟩]

theorem execStderr_reportsOwn_filling :
    ReportsOwn (str "process") true false filling
      ⟨[str "idle\n"], none, [str "a\n", str "b\n", str "c\n"] ++ List.replicate 5 (str "d\n")⟩ :=
  (execStderr_reportsOwn_iff _ true false filling _ (by decide)).mpr (.inl (by decide +kernel))

/-- After a turn with two hundred lines, the next turn's line is not reported. -/
theorem not_reportsOwn_after_full :
    ¬∀ (label : Str) (sawResult timedOut : Bool) (earlier : List Turn) (turn : Turn),
      (turn.during.rtake maxlen).flatten ≠ [] →
        ReportsOwn label sawResult timedOut earlier turn := by
  intro h
  have hwhole := (h (str "process") true false [⟨[], none, List.replicate 200 (str "noise\n")⟩]
    ⟨[], none, [str "warn\n"]⟩ (by decide)).whole
  have hnone : reportedLines [⟨[], none, List.replicate 200 (str "noise\n")⟩]
      ⟨[], none, [str "warn\n"]⟩ = [] := by
    rw [reportedLines_eq]
    have hfull : (drainedBefore [⟨[], none, List.replicate 200 (str "noise\n")⟩]
        ⟨[], none, [str "warn\n"]⟩).length = 200 := by
      simp only [drainedBefore, sinceSpawn, List.foldl_cons, List.foldl_nil, List.nil_append,
        List.append_nil, List.length_replicate]
    rw [hfull]
    rfl
  rw [execStderr, hnone] at hwhole
  revert hwhole
  decide

end AgentWeb.StderrLog
