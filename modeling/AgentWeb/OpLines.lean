import AgentWeb.JsonAscii
import AgentWeb.Delimited

namespace AgentWeb.OpLines

open PyText PyFloat PyJson JsonLoads JsonWriter JsonCodec JsonAscii Delimited

/-- `sorted(SUPPORTED_PROTOCOL_VERSIONS)`. -/
def supportedVersions : List Int := [1]

inductive Op
  | hello (opId : Str)
  | ping
  | cancel (runId : Str) (opId : Option Str)
  | answer (runId : Str) (answers : List Str) (askId opId : Option Str)
  | submit (prompt runId : Str) (opId : Option Str)
  | shutdown

/-- `_tag`, where the sandbox understands correlation ids. -/
def tag (op : Dict) : Option Str → Dict
  | none => op
  | some id => Dict.set op "op_id" (.str id)

def Op.toDict : Op → Dict
  | .hello opId =>
      [(str "op", .str (str "hello")), (str "protocol_versions", .arr (supportedVersions.map .int)),
        (str "op_id", .str opId)]
  | .ping => [(str "op", .str (str "ping"))]
  | .cancel runId opId => tag [(str "op", .str (str "cancel")), (str "run_id", .str runId)] opId
  | .answer runId answers askId opId =>
      let op := [(str "op", .str (str "answer")), (str "run_id", .str runId),
        (str "answers", .arr (answers.map .str))]
      tag (match askId with
        | some (c :: cs) => Dict.set op "ask_id" (.str (c :: cs))
        | _ => op) opId
  | .submit prompt runId opId =>
      tag [(str "op", .str (str "submit")), (str "prompt", .str prompt), (str "run_id", .str runId)] opId
  | .shutdown => [(str "op", .str (str "shutdown"))]

/-- `_send`: an op is one line. -/
def opLine (op : Op) : Str := asciiDumps (.obj op.toDict) ++ [10]

def written (ops : List Op) : Str := ops.flatMap opLine

def Op.Sound : Op → Prop
  | .hello opId => Unpaired opId
  | .cancel runId opId => Unpaired runId ∧ ∀ id ∈ opId, Unpaired id
  | .answer runId answers askId opId =>
      Unpaired runId ∧ (∀ a ∈ answers, Unpaired a) ∧ (∀ id ∈ askId, Unpaired id) ∧ ∀ id ∈ opId, Unpaired id
  | .submit prompt runId opId => Unpaired prompt ∧ Unpaired runId ∧ ∀ id ∈ opId, Unpaired id
  | .ping | .shutdown => True

theorem fits_tag {d : Dict} (hd : Fits Unpaired 2 (.obj d)) {opId : Option Str}
    (h : ∀ id ∈ opId, Unpaired id) : Fits Unpaired 2 (.obj (tag d opId)) := by
  cases opId with
  | none => exact hd
  | some id => exact fits_set hd (by decide) (by simpa [Fits] using h id rfl)

theorem fits_op {op : Op} (h : op.Sound) : Fits Unpaired 2 (.obj op.toDict) := by
  have hkey : ∀ k ∈ ([str "op", str "run_id", str "answers", str "prompt", str "protocol_versions",
      str "op_id", str "ask_id", str "ping", str "shutdown", str "cancel", str "answer", str "submit",
      str "hello"] : List Str), Unpaired k := by decide
  cases op with
  | ping | shutdown => exact ⟨by decide, by simp [Op.toDict, FitsEntries, Fits, hkey]⟩
  | hello opId =>
      have hone : (decimal 1).length ≤ intMaxStrDigits := by decide
      have hid : Unpaired opId := h
      refine ⟨by simp [Op.toDict], ?_⟩
      simp [Op.toDict, FitsEntries, Fits, FitsItems, supportedVersions, hkey, hone, hid]
  | cancel runId opId =>
      refine fits_tag ⟨by simp, ?_⟩ h.2
      simp [FitsEntries, Fits, hkey, h.1]
  | submit prompt runId opId =>
      refine fits_tag ⟨by simp, ?_⟩ h.2.2
      simp [FitsEntries, Fits, hkey, h.1, h.2.1]
  | answer runId answers askId opId =>
      obtain ⟨hrun, hanswers, hask, hop⟩ := h
      have hitems : FitsItems Unpaired 0 (answers.map .str) := by
        rw [fitsItems_iff]
        intro x hx
        obtain ⟨a, ha, rfl⟩ := List.mem_map.mp hx
        simpa [Fits] using hanswers a ha
      have hbase : Fits Unpaired 2 (.obj [(str "op", .str (str "answer")),
          (str "run_id", .str runId), (str "answers", .arr (answers.map .str))]) := by
        refine ⟨by simp, ?_⟩
        simp [FitsEntries, Fits, hkey, hrun, hitems]
      rcases askId with - | (- | ⟨c, cs⟩)
      · exact fits_tag hbase hop
      · exact fits_tag hbase hop
      · refine fits_tag (fits_set hbase (hkey (str "ask_id") (by decide)) ?_) hop
        simpa [Fits] using hask (c :: cs) rfl

theorem lines_written {op : Op} (h : op.Sound) (rest : Str) :
    delimited 10 (opLine op ++ rest) = opLine op :: delimited 10 rest ∧
      splitlines (opLine op ++ rest) = asciiDumps (.obj op.toDict) :: splitlines rest := by
  have hinline : Inline (asciiDumps (.obj op.toDict)) := inline_write _ (fits_op h)
  rw [opLine, List.append_assoc, List.singleton_append]
  constructor
  · refine delimited_line (fun h10 => ?_) rest
    have := hinline 10 h10
    omega
  · refine (splitlines_append_boundary _ (fun c hc => ?_) (by decide) rest).trans (by simp)
    have := hinline c hc
    simp only [isBoundary, Bool.or_eq_false_iff, Bool.and_eq_false_iff, decide_eq_false_iff_not,
      beq_eq_false_iff_ne]
    omega

/-- The harness reads off its lines the ops that were sent, one each and in order, whatever
texts a user has put into them and however it cuts lines. -/
theorem ops_read [Interpreter] (hlimit : 2 ≤ Interpreter.recursionLimit) {ops : List Op}
    (hops : ∀ op ∈ ops, op.Sound) :
    (delimited 10 (written ops)).map loads = ops.map (fun op => .ok (.obj op.toDict)) ∧
      (splitlines (written ops)).map loads = ops.map (fun op => .ok (.obj op.toDict)) := by
  have hload : ∀ op : Op, op.Sound → loads (asciiDumps (.obj op.toDict)) = .ok (.obj op.toDict) :=
    fun op h => loads_write quotes_asciiText (fits_mono hlimit _ (fits_op h))
  induction ops with
  | nil => exact ⟨rfl, rfl⟩
  | cons op ops ih =>
      have hop := hops op (by simp)
      obtain ⟨ihlines, ihsplit⟩ := ih fun o ho => hops o (by simp [ho])
      obtain ⟨hlines, hsplit⟩ := lines_written hop (written ops)
      rw [written, List.flatMap_cons, ← written, hlines, hsplit, List.map_cons, List.map_cons,
        List.map_cons, ihlines, ihsplit, opLine, loads_concat_space _ (by decide), hload op hop]
      exact ⟨rfl, rfl⟩

/-- A prompt of more than one line, and the shutdown after it. -/
theorem ops_read_two :
    letI : Interpreter := asciiTables
    let ops := [Op.submit (str "a\nb") (str "run_1") (some (str "op_1")), .shutdown]
    (delimited 10 (written ops)).map loads = ops.map (fun op => .ok (.obj op.toDict)) ∧
      (splitlines (written ops)).map loads = ops.map (fun op => .ok (.obj op.toDict)) := by
  let _ : Interpreter := asciiTables
  have hsound : ∀ op ∈ [Op.submit (str "a\nb") (str "run_1") (some (str "op_1")), .shutdown], op.Sound := by
    simp only [List.forall_mem_cons, List.not_mem_nil, false_imp_iff, implies_true, and_true, Op.Sound,
      Option.mem_def, Option.some.injEq, forall_eq']
    decide
  exact ops_read (by decide) hsound

end AgentWeb.OpLines
