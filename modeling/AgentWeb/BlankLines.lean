import AgentWeb.Frames
import Mathlib.Algebra.BigOperators.Group.List.Basic

namespace AgentWeb.BlankLines

open Loops Demux Frames

/-- The newlines that a frame of newlines, or one of stderr without any, puts
out. The first one of an oversize frame ends the line it belongs to. -/
def ticks (cfg : Config) (f : Frame) : Nat :=
  if cfg.Over f.size then f.payload.count newline - 1
  else if f.Stderr cfg then 0
  else f.payload.count newline

def chunkTicks (cfg : Config) (c : Chunk) : Nat := (c.frames.map (ticks cfg)).sum

def Newlines (f : Frame) : Prop := ∀ b ∈ f.payload, b = newline

def Blank (cfg : Config) (f : Frame) : Prop :=
  Newlines f ∨ f.Stderr cfg ∧ newline ∉ f.payload

/-- A stream between two frames that has `n` newlines pending. -/
structure Waiting (s : DockerStream) (n : Nat) (sock : List Bytes) : Prop where
  between : Between s
  pending : s.pending = List.replicate n newline
  sock : s.sock = sock

def fill (b : UInt8) (f : Frame) : Frame :=
  ⟨f.kind, List.replicate f.size b, by simpa [Frame.size] using f.fits⟩

theorem sameHeader_fill (b : UInt8) (f : Frame) : SameHeader f (fill b f) :=
  ⟨rfl, List.length_replicate⟩

theorem newlines_fill (f : Frame) : Newlines (fill newline f) :=
  fun _ hb => List.eq_of_mem_replicate hb

theorem waiting_start (chunks : List Chunk) :
    Waiting { sock := chunks.map Chunk.bytes } 0 (chunks.map Chunk.bytes) := ⟨⟨rfl, rfl⟩, rfl, rfl⟩

theorem Newlines.eq_replicate {f : Frame} (h : Newlines f) :
    f.payload = List.replicate f.size newline := List.eq_replicate_iff.mpr ⟨rfl, h⟩

theorem noteOversize_discarding (s : DockerStream) : (noteOversize s).discarding = true := by
  rw [noteOversize]
  split
  next h => exact h
  next => rfl

theorem afterNewline_replicate (n : Nat) :
    afterNewline (List.replicate (n + 1) newline) = List.replicate n newline := rfl

theorem Newlines.count {f : Frame} (h : Newlines f) : f.payload.count newline = f.size := by
  rw [h.eq_replicate, List.count_replicate_self]

theorem ticks_over {cfg : Config} {f : Frame} (h : Newlines f) (ho : cfg.Over f.size) :
    ticks cfg f = f.size - 1 := by
  rw [ticks, if_pos ho, h.count]

section

variable {cfg : Config} {s : DockerStream}

theorem receive_newlines {f : Frame} (h : Newlines f) :
    (receive cfg s f).2 = List.replicate (ticks cfg f) newline ∧
      (s.discarding = false → (receive cfg s f).1.discarding = false) := by
  rw [receive, ticks, h.count]
  split_ifs with ho
  · obtain ⟨n, hn⟩ : ∃ n, f.size = n + 1 :=
      Nat.exists_eq_add_one_of_ne_zero fun hz => not_over_zero cfg (hz ▸ ho)
    have hpayload := h.eq_replicate
    rw [hn] at hpayload
    have hend : endOversize (noteOversize s) f.payload =
        ({ noteOversize s with discarding := false }, afterNewline f.payload) :=
      if_pos ⟨noteOversize_discarding s, by simp [hpayload]⟩
    rw [hend, hpayload, hn]
    exact ⟨afterNewline_replicate n, fun _ => rfl⟩
  · exact ⟨rfl, id⟩
  · exact ⟨h.eq_replicate, id⟩

theorem receive_blank {f : Frame} (h : Blank cfg f) :
    (receive cfg s f).2 = List.replicate (ticks cfg f) newline := by
  rcases h with h | ⟨herr, hno⟩
  · exact (receive_newlines h).1
  · rw [receive, ticks, List.count_eq_zero_of_not_mem hno]
    split_ifs
    · rw [endOversize, if_neg fun h => hno h.2]
      rfl
    · rfl

theorem receiveAll_blank {frames : List Frame} (h : ∀ f ∈ frames, Blank cfg f) :
    (receiveAll cfg s frames).2 = List.replicate (frames.map (ticks cfg)).sum newline := by
  induction frames generalizing s with
  | nil => rfl
  | cons f frames ih =>
      have hf := h f List.mem_cons_self
      rw [receiveAll, List.map_cons, List.sum_cons, List.replicate_add]
      simp only [receive_blank hf, ih fun g hg => h g (List.mem_cons_of_mem f hg)]

theorem receiveAll_discarding {frames : List Frame} (h : ∀ f ∈ frames, Newlines f)
    (hd : s.discarding = false) : (receiveAll cfg s frames).1.discarding = false := by
  induction frames generalizing s with
  | nil => exact hd
  | cons f frames ih =>
      exact ih (fun g hg => h g (List.mem_cons_of_mem f hg))
        ((receive_newlines (h f List.mem_cons_self)).2 hd)

variable (cfg) in
theorem readlines_pending {n : Nat} {sock : List Bytes} (hw : Waiting s n sock) :
    ∃ t, Waiting t 0 sock ∧ (readlines cfg s).2.length ≤ n + (readlines cfg t).2.length ∧
      (s.discarding = false → t.discarding = false ∧
        (readlines cfg s).2.length = n + (readlines cfg t).2.length) := by
  induction n generalizing s with
  | zero => exact ⟨s, hw, by omega, fun hd => ⟨hd, by omega⟩⟩
  | succ n ih =>
      have hn : newline ∈ s.pending := by simp [hw.pending]
      have hafter : afterNewline s.pending = List.replicate n newline := by rw [hw.pending]; rfl
      cases hd : s.discarding with
      | true =>
          rw [readlines_again (readlinePass_newline _ hn hd)]
          obtain ⟨t, ht, hle, -⟩ := ih (s := { s with
            pending := afterNewline s.pending, discarding := false })
            ⟨⟨hw.between.buf, hw.between.skipPayload⟩, hafter, hw.sock⟩
          exact ⟨t, ht, by omega, fun h => by cases h⟩
      | false =>
          have ho : ¬ cfg.Over (beforeNewline s.pending).length := by
            rw [hw.pending]
            exact not_over_zero cfg
          obtain ⟨t, ht, hle, heq⟩ := ih (s := { s with pending := afterNewline s.pending })
            ⟨⟨hw.between.buf, hw.between.skipPayload⟩, hafter, hw.sock⟩
          obtain ⟨htd, heq⟩ := heq hd
          rw [readlines_line (readlinePass_line hn hd ho) (by simp)]
          refine ⟨t, ht, ?_, fun _ => ⟨htd, ?_⟩⟩
          · simp only [List.length_cons]; omega
          · simp only [List.length_cons]; omega

variable (cfg) in
theorem readlines_recv {chunk : Bytes} {sock : List Bytes} (hp : s.pending = [])
    (hs : s.sock = chunk :: sock) (hc : chunk ≠ []) :
    readlines cfg s = readlines cfg (feed cfg { s with sock := sock } chunk) := by
  have hdrop : dropPending cfg { s with sock := sock } = { s with sock := sock } := by
    rw [dropPending, hp]
    exact if_neg (not_over_zero cfg)
  have hpass := readlinePass_recv cfg (by simp [hp]) hs hc
  rw [hdrop] at hpass
  exact readlines_again hpass

theorem readlines_chunk {c : Chunk} {sock : List Bytes} (hw : Waiting s 0 (c.bytes :: sock))
    (hb : ∀ f ∈ c.frames, Blank cfg f) :
    ∃ t, Waiting t (chunkTicks cfg c) sock ∧ readlines cfg s = readlines cfg t ∧
      ((∀ f ∈ c.frames, Newlines f) → s.discarding = false → t.discarding = false) := by
  have hread := readlines_recv cfg hw.pending hw.sock c.bytes_ne_nil
  have hs : Between { s with sock := sock } := ⟨hw.between.buf, hw.between.skipPayload⟩
  have hall := receiveAll_untouched cfg { s with sock := sock } c.frames
  have hbetween := receiveAll_between cfg hs c.frames
  rw [Chunk.bytes, feed_encodeAll hs] at hread
  refine ⟨pend (receiveAll cfg { s with sock := sock } c.frames),
    ⟨⟨hbetween.buf, hbetween.skipPayload⟩, ?_, hall.1⟩, hread, ?_⟩
  · rw [pend, hall.2, receiveAll_blank hb, chunkTicks]
    exact congrArg (· ++ _) hw.pending
  · exact fun hnew hd => receiveAll_discarding hnew hd

variable (cfg) in
theorem readlines_blank_le {chunks : List Chunk} (hw : Waiting s 0 (chunks.map Chunk.bytes))
    (hb : ∀ c ∈ chunks, ∀ f ∈ c.frames, Blank cfg f) :
    (readlines cfg s).2.length ≤ (chunks.map (chunkTicks cfg)).sum := by
  induction chunks generalizing s with
  | nil =>
      rw [(readlines_ended _ hw.pending hw.sock).1]
      exact Nat.le_refl 0
  | cons c chunks ih =>
      obtain ⟨t, ht, heq, -⟩ := readlines_chunk hw (hb c List.mem_cons_self)
      obtain ⟨u, hu, hle, -⟩ := readlines_pending cfg ht
      have hrest := ih hu fun c' hc => hb c' (List.mem_cons_of_mem c hc)
      rw [heq, List.map_cons, List.sum_cons]
      omega

variable (cfg) in
theorem readlines_newlines (chunks : List Chunk) (sock : List Bytes)
    (hw : Waiting s 0 (chunks.map Chunk.bytes ++ sock)) (hd : s.discarding = false)
    (hb : ∀ c ∈ chunks, ∀ f ∈ c.frames, Newlines f) :
    ∃ t, Waiting t 0 sock ∧ t.discarding = false ∧ (readlines cfg s).2.length =
      (chunks.map (chunkTicks cfg)).sum + (readlines cfg t).2.length := by
  induction chunks generalizing s with
  | nil => exact ⟨s, hw, hd, (Nat.zero_add _).symm⟩
  | cons c chunks ih =>
      have hc := hb c List.mem_cons_self
      obtain ⟨t, ht, heq, htd⟩ := readlines_chunk hw fun f hf => .inl (hc f hf)
      obtain ⟨u, hu, -, hexact⟩ := readlines_pending cfg ht
      obtain ⟨hud, hexact⟩ := hexact (htd hc hd)
      obtain ⟨v, hv, hvd, hrest⟩ := ih hu hud fun c' hc' => hb c' (List.mem_cons_of_mem c hc')
      refine ⟨v, hv, hvd, ?_⟩
      rw [heq, hexact, hrest, List.map_cons, List.sum_cons]
      omega

end

end AgentWeb.BlankLines
