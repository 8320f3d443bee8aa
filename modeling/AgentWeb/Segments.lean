import AgentWeb.Chunking
import AgentWeb.Delimited

namespace AgentWeb.Segments

open PyText Demux Frames CutLines Chunking Delimited

/-- The lines of a text with the newlines that end them. The last one has none
where the text goes on behind its last newline. -/
def segments (text : Bytes) : List Bytes :=
  let parts := text.splitOn newline
  parts.dropLast.map (· ++ [newline]) ++ (parts.getLast?.toList.filter (· ≠ []))

theorem segments_line {line : Bytes} (h : newline ∉ line) (text : Bytes) :
    segments (line ++ newline :: text) = (line ++ [newline]) :: segments text :=
  delimited_line h text

theorem segments_last {line : Bytes} (h : newline ∉ line) :
    segments line = if line = [] then [] else [line] :=
  delimited_last h

@[simp] theorem segments_nil : segments [] = [] := rfl

def Long (cfg : Config) (segment : Bytes) : Prop := cfg.Over (beforeNewline segment).length

instance (cfg : Config) (segment : Bytes) : Decidable (Long cfg segment) :=
  inferInstanceAs (Decidable (cfg.Over _))

theorem cutLines_segments (cfg : Config) (text : Bytes) :
    cutLines cfg false [] text =
      ((segments text).filter fun l => ¬ Long cfg l, (segments text).countP fun l => Long cfg l) := by
  induction text using delimited_induction (d := newline) with
  | last line h =>
      have hread := cutLines_read cfg [] h []
      rw [List.append_nil, List.nil_append] at hread
      rw [hread, segments_last h, cutLines]
      have hlong : Long cfg line ↔ cfg.Over line.length := by rw [Long, beforeNewline_last h]
      by_cases hl : line = []
      · simp [hl]
      · by_cases ho : cfg.Over line.length <;> simp [hl, ho, hlong]
  | line line text h ih =>
      have hlong : Long cfg (line ++ [newline]) ↔ cfg.Over line.length := by
        rw [Long, beforeNewline_line h]
      rw [cutLines_read cfg [] h, List.nil_append, cutLines, if_pos rfl, ih, segments_line h]
      by_cases ho : cfg.Over line.length <;> simp [ho, hlong]

theorem encodeAll_length_arrived (frames : List Frame) :
    arrived (encodeAll frames).length frames = frames := by
  induction frames with
  | nil => rfl
  | cons f frames ih =>
      rw [encodeAll_cons, arrived, List.length_append, if_pos (by omega), Nat.add_sub_cancel_left, ih]

variable {cfg : Config} {frames : List Frame} {chunks : List Bytes}

theorem framed_of_splits (hfit : ∀ f ∈ frames, ¬ cfg.Over f.size)
    (h : Splits chunks (encodeAll frames)) : Framed cfg { sock := chunks } frames := by
  refine ⟨rfl, ?_, hfit, ?_, h.1⟩
  · rw [← h.2]
    exact List.prefix_rfl
  · cases frames with
    | nil => rfl
    | cons f frames =>
        have hlen := encode_length f
        rw [header] at hlen
        exact if_neg (by simp only [List.length_nil]; omega)

/-- However the socket cuts frames within the limit, a reader gets the lines of
their text that are not too long, and the sink the rest. -/
theorem readlines_whole (hfit : ∀ f ∈ frames, ¬ cfg.Over f.size)
    (h : Splits chunks (encodeAll frames)) :
    outcome cfg { sock := chunks } =
        ((segments (stdout cfg frames)).filter fun l => ¬ Long cfg l,
          (segments (stdout cfg frames)).countP fun l => Long cfg l) ∧
      (readlines cfg { sock := chunks }).1.sunk = stderr cfg frames := by
  obtain ⟨hout, hsunk⟩ := readlines_framed (framed_of_splits hfit h)
  have harrived : arrived (([] : Bytes).length + chunks.flatten.length) frames = frames := by
    rw [h.2, List.length_nil, Nat.zero_add, encodeAll_length_arrived]
  rw [toCome, harrived] at hout
  rw [toSink, harrived] at hsunk
  rw [hout, hsunk, expected, List.nil_append, cutLines_segments, Nat.zero_add]
  exact ⟨rfl, rfl⟩

theorem stdout_of_kind (h : ∀ f ∈ frames, f.kind = 1) :
    stdout cfg frames = frames.flatMap Frame.payload := by
  refine List.flatMap_congr fun f hf => if_neg fun he => ?_
  exact absurd (he.1.symm.trans (h f hf)) (by decide)

theorem stdout_kinds (maxLine : Int) (frames : List Frame) :
    stdout ⟨maxLine, true⟩ frames = (frames.filter (·.kind ≠ 2)).flatMap Frame.payload := by
  induction frames with
  | nil => rfl
  | cons f frames ih =>
      rw [stdout] at ih ⊢
      rw [List.flatMap_cons, ih]
      by_cases hk : f.kind = 2 <;> simp [Frame.Stderr, hk]

theorem stderr_kinds (maxLine : Int) (frames : List Frame) :
    stderr ⟨maxLine, true⟩ frames = (frames.filter (·.kind = 2)).map Frame.payload := by
  rw [stderr]
  congr 1
  refine List.filter_congr fun f _ => ?_
  simp [Frame.Stderr]

/-- With a sink and frames within the limit, the demultiplexer gives the lines
that are not too long, counts the others and hands stderr to the sink. -/
theorem demux_exact (decode : Bytes → Str) {maxLine : Nat} (hmax : 1 ≤ maxLine)
    {frames : List Frame} (hfit : ∀ f ∈ frames, f.size ≤ maxLine) {chunks : List Bytes}
    (h : Splits chunks (encodeAll frames)) :
    let cfg : Config := ⟨maxLine, true⟩
    let lines := segments ((frames.filter (·.kind ≠ 2)).flatMap Frame.payload)
    Chunking.read decode cfg chunks =
        ((lines.filter fun l => (beforeNewline l).length ≤ maxLine).map decode,
          lines.countP fun l => maxLine < (beforeNewline l).length) ∧
      (readlines cfg { sock := chunks }).1.sunk.map decode =
        (frames.filter (·.kind = 2)).map fun f => decode f.payload := by
  intro cfg lines
  have hover : ∀ n, cfg.Over n ↔ maxLine < n := by
    intro n
    rw [Config.Over]
    exact ⟨fun h => Int.ofNat_lt.mp h.2, fun h => ⟨Int.ofNat_lt.mpr hmax, Int.ofNat_lt.mpr h⟩⟩
  have hstdout : stdout cfg frames = (frames.filter (·.kind ≠ 2)).flatMap Frame.payload :=
    stdout_kinds maxLine frames
  have hstderr : stderr cfg frames = (frames.filter (·.kind = 2)).map Frame.payload :=
    stderr_kinds maxLine frames
  have hfits : ∀ f ∈ frames, ¬ cfg.Over f.size := by
    intro f hf
    rw [hover]
    exact Nat.not_lt.mpr (hfit f hf)
  obtain ⟨hout, hsunk⟩ := readlines_whole hfits h
  rw [outcome, Prod.mk.injEq, hstdout] at hout
  rw [hsunk, hstderr, List.map_map, Chunking.read]
  refine ⟨?_, rfl⟩
  simp only [hout, Long, hover, Nat.not_lt]
  rfl

/-- The line `bcd` is longer than two bytes, and the chunks end within a header
and within a payload. -/
theorem demux_exact_straddling :
    Chunking.read (·.map UInt8.toNat) ⟨2, true⟩ [[1, 0, 0, 0, 0], [0, 0, 2, 97], [10, 2, 0, 0, 0, 0,
      0, 0, 1, 101, 1, 0, 0, 0, 0, 0, 0, 2, 98], [99, 1, 0, 0, 0, 0, 0, 0, 2, 100, 10]] =
        ([[97, 10]], 1) ∧
      (readlines ⟨2, true⟩ { sock := [[1, 0, 0, 0, 0], [0, 0, 2, 97], [10, 2, 0, 0, 0, 0,
        0, 0, 1, 101, 1, 0, 0, 0, 0, 0, 0, 2, 98], [99, 1, 0, 0, 0, 0, 0, 0, 2, 100, 10]] }).1.sunk.map
          (·.map UInt8.toNat) = [[101]] :=
  @demux_exact (·.map UInt8.toNat) 2 (by decide) [⟨1, [97, newline], by decide⟩,
    ⟨2, [101], by decide⟩, ⟨1, [98, 99], by decide⟩, ⟨1, [100, newline], by decide⟩] (by decide) _
    ⟨by decide, rfl⟩

end AgentWeb.Segments
