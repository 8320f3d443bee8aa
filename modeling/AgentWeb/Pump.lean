import AgentWeb.NextLine
import AgentWeb.Protocol
import AgentWeb.PyDecode

namespace AgentWeb.Pump

open PyText PyJson JsonLoads Protocol Loops

/-- A `SandboxTransport`. A read that is not the end takes from what is left. -/
structure Transport (σ : Type*) where
  readLine : Int → σ → σ × Str × Bool
  takeOversizeDrops : σ → σ × Nat
  rank : σ → Nat
  drops_rank : ∀ s, rank (takeOversizeDrops s).1 = rank s
  read_rank : ∀ maxChars s, (readLine maxChars s).2 ≠ ([], false) →
    rank (readLine maxChars s).1 < rank s

structure Settings where
  maxLineBytes : Int
  maxRunStdoutBytes : Int

/-- What `_pump_until_result` has kept and counted, and what it has raised. -/
structure Log where
  stdoutLines : List Str := []
  kept : Nat := 0
  oversizeLines : Nat := 0
  sawResult : Bool := false
  raised : Option Exc := none

/-- `line.rstrip("\n")`. -/
def rstripNewlines (line : Str) : Str := line.rdropWhile (· == 10)

section

variable [Interpreter]

/-- The payload of a line, unless `json.loads` raises what the pump lets through. -/
def payloadOf (line : Str) : Except Exc (Option Dict) :=
  match loads line with
  | .ok (.obj payload) => .ok (some payload)
  | .ok _ => .ok none
  | .error e => if e.isValueError then .ok none else .error e

/-- One line that has been read: it is kept within the budget or if it decides
the outcome, relayed, and the last one if it is the result. -/
def relayLine (settings : Settings) (log : Log) (text : Str) : Pass Log Str :=
  let line := rstripNewlines text
  match payloadOf line with
  | .error e => .stop { log with raised := some e } []
  | .ok payload =>
      let relevant := payload.any affectsOutcome
      let log := if settings.maxRunStdoutBytes ≤ 0 ∨ log.kept < settings.maxRunStdoutBytes ∨ relevant
        then { log with
          stdoutLines := log.stdoutLines ++ [line ++ [10]], kept := log.kept + line.length + 1 }
        else log
      if payload.any fun d => isStr (fetch d "type") "result" then
        .stop { log with sawResult := true } [line]
      else .again log [line]

variable {σ : Type*} (transport : Transport σ) (settings : Settings)

def onLog (t : σ) : Pass Log Str → Pass (σ × Log) Str
  | .again log out => .again (t, log) out
  | .stop log out => .stop (t, log) out

/-- One pass of the loop of `_pump_until_result`, which puts out what it relays. -/
def pumpPass (s : σ × Log) : Pass (σ × Log) Str :=
  let r := transport.readLine settings.maxLineBytes s.1
  let d := transport.takeOversizeDrops r.1
  let log := { s.2 with oversizeLines := s.2.oversizeLines + d.2 }
  if r.2.2 = true then .again (d.1, { log with oversizeLines := log.oversizeLines + 1 }) []
  else if r.2.1 = [] then .stop (d.1, log) []
  else onLog d.1 (relayLine settings log r.2.1)

omit [Interpreter] in
theorem onLog_again {t : σ} {pass : Pass Log Str} {s : σ × Log} {out : List Str}
    (h : onLog t pass = .again s out) : s.1 = t := by
  cases pass with
  | again log out => cases h; rfl
  | stop log out => cases h

theorem pumpPass_falls : Falls (pumpPass transport settings) fun s => transport.rank s.1 := by
  intro s t out h
  have hread := transport.read_rank settings.maxLineBytes s.1
  have hdrops := transport.drops_rank (transport.readLine settings.maxLineBytes s.1).1
  simp only [pumpPass] at h
  split_ifs at h with hover hnil
  · cases h
    simp only [hdrops]
    refine hread fun hend => ?_
    rw [hend] at hover
    cases hover
  · simp only [onLog_again h, hdrops]
    refine hread fun hend => ?_
    rw [hend] at hnil
    exact hnil rfl

/-- `_pump_until_result`, with what it relays. -/
def pumpUntilResult (s : σ) : (σ × Log) × List Str :=
  loop (pumpPass transport settings) (fun s => transport.rank s.1) (s, {})

end

/-- `readline(limit)` of a text stream: what is read of the next line, and the
rest of the stream. -/
def readline (limit : Int) (text : Str) : Str × Str :=
  let line := text.takeWhile (· != 10) ++ if 10 ∈ text then [10] else []
  let got := if limit < 0 then line else line.take limit.toNat
  (got, text.drop got.length)

def drainPass (maxChars : Int) (text : Str) : Pass Str Unit :=
  let r := readline maxChars text
  if r.1 = [] ∨ r.1.getLast? = some 10 then .stop r.2 [] else .again r.2 []

/-- `read_capped_line`, with the rest of the stream. -/
def readCappedLine (maxChars : Int) (text : Str) : Str × Str × Bool :=
  if maxChars ≤ 0 then
    let r := readline (-1) text
    (r.2, r.1, false)
  else
    let r := readline maxChars text
    if r.1 = [] ∨ r.1.getLast? = some 10 ∨ r.1.length < maxChars then (r.2, r.1, false)
    else ((loop (drainPass maxChars) List.length r.2).1, r.1, true)

theorem takeLine_length_le (text : Str) :
    (text.takeWhile (· != 10) ++ if 10 ∈ text then [10] else []).length ≤ text.length := by
  have hsplit := congrArg List.length (List.takeWhile_append_dropWhile (p := (· != 10)) (l := text))
  rw [List.length_append] at hsplit ⊢
  split
  next hmem =>
    have hne : text.dropWhile (· != 10) ≠ [] := by
      rw [Ne, List.dropWhile_eq_nil_iff]
      exact fun hall => absurd (hall 10 hmem) (by simp)
    have hpos := List.length_pos_iff.mpr hne
    rw [List.length_singleton]
    omega
  next =>
    rw [List.length_nil]
    omega

theorem readline_length (limit : Int) (text : Str) :
    (readline limit text).2.length + (readline limit text).1.length = text.length := by
  have hline := takeLine_length_le text
  have hgot : (readline limit text).1.length ≤ text.length := by
    rw [readline]
    split
    · exact hline
    · rw [List.length_take]
      exact Nat.le_trans (Nat.min_le_right _ _) hline
  rw [show (readline limit text).2 = text.drop (readline limit text).1.length from rfl,
    List.length_drop]
  omega

theorem drainPass_falls (maxChars : Int) : Falls (drainPass maxChars) List.length := by
  intro text rest out h
  have hlen := readline_length maxChars text
  simp only [drainPass] at h
  split_ifs at h with hend
  cases h
  rw [not_or] at hend
  have hpos := List.length_pos_iff.mpr hend.1
  omega

theorem drain_length_le (maxChars : Int) (text : Str) :
    (loop (drainPass maxChars) List.length text).1.length ≤ text.length := by
  have hfalls := drainPass_falls maxChars
  have hle := loop_rank_le hfalls (fun text => ?_) text
  · omega
  · have hlen := readline_length maxChars text
    simp only [drainPass]
    split <;> simp only [Pass.state, Pass.out, List.length_nil] <;> omega

theorem readCappedLine_length {maxChars : Int} {text : Str}
    (h : (readCappedLine maxChars text).2 ≠ ([], false)) :
    (readCappedLine maxChars text).1.length < text.length := by
  have hwhole := readline_length (-1) text
  have hlen := readline_length maxChars text
  have hdrain := drain_length_le maxChars (readline maxChars text).2
  rw [readCappedLine] at h ⊢
  simp only at h ⊢
  split_ifs at h ⊢ with hcap hgot
  · have hpos : 0 < (readline (-1) text).1.length :=
      List.length_pos_iff.mpr fun hnil => h (Prod.ext hnil rfl)
    dsimp only
    omega
  · have hpos : 0 < (readline maxChars text).1.length :=
      List.length_pos_iff.mpr fun hnil => h (Prod.ext hnil rfl)
    dsimp only
    omega
  · rw [not_or] at hgot
    have hpos := List.length_pos_iff.mpr hgot.1
    dsimp only
    omega

/-- Universal newlines: a carriage return ends a line, with the newline behind it. -/
def universal : Str → Str
  | [] => []
  | 13 :: 10 :: rest => 10 :: universal rest
  | c :: rest => (if c = 13 then 10 else c) :: universal rest

def pipeText (output : List UInt8) : Str := universal (PyDecode.decode output)

/-- `_ProcessTransport`, with the text that its pipe has yet to give. -/
def processTransport : Transport Str where
  readLine := readCappedLine
  takeOversizeDrops text := (text, 0)
  rank := List.length
  drops_rank _ := rfl
  read_rank _ _ := readCappedLine_length

/-- `_ContainerTransport`, with the count of oversize lines it has seen. -/
def containerTransport (cfg : Demux.Config) : Transport (Demux.DockerStream × Nat) where
  readLine _ s :=
    let r := Demux.readline cfg s.1
    ((r.1, s.2), PyDecode.decode r.2, false)
  takeOversizeDrops s := ((s.1, s.1.oversizeLines), s.1.oversizeLines - s.2)
  rank s := Demux.rank s.1
  drops_rank _ := rfl
  read_rank _ s h := by
    have hrank := Demux.readline_rank cfg s.1
    have hne : (Demux.readline cfg s.1).2 ≠ [] := fun hnil =>
      h (Prod.ext (PyDecode.decode_eq_nil.mpr hnil) rfl)
    have hpos := List.length_pos_iff.mpr hne
    simp only
    omega

end AgentWeb.Pump
