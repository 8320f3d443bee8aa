import AgentWeb.Loops
import Mathlib.Data.List.TakeWhile

namespace AgentWeb.Demux

open Loops

abbrev Bytes := List UInt8

def newline : UInt8 := 10

/-- What a stream is made with: the longest line it buffers, and whether it has
a `stderr_sink`. -/
structure Config where
  maxLine : Int
  sink : Bool

/-- A `_DockerStream`, with the chunks its socket has yet to give and the
payloads its sink has got. -/
structure DockerStream where
  sock : List Bytes
  buf : Bytes := []
  pending : Bytes := []
  closed : Bool := false
  discarding : Bool := false
  skipPayload : Nat := 0
  oversizeLines : Nat := 0
  sunk : List Bytes := []

/-- Longer than `max_line`, where there is such a limit. -/
def Config.Over (cfg : Config) (n : Nat) : Prop := 0 < cfg.maxLine ∧ cfg.maxLine < n

instance (cfg : Config) (n : Nat) : Decidable (cfg.Over n) :=
  inferInstanceAs (Decidable (_ ∧ _))

def header : Nat := 8

/-- `int.from_bytes(_, "big")`. -/
def fromBytes (bs : Bytes) : Nat := bs.foldl (fun n b => 256 * n + b.toNat) 0

def beforeNewline (bs : Bytes) : Bytes := bs.takeWhile (· != newline)

def afterNewline (bs : Bytes) : Bytes := (bs.dropWhile (· != newline)).tail

def noteOversize (s : DockerStream) : DockerStream :=
  if s.discarding then s else { s with discarding := true, oversizeLines := s.oversizeLines + 1 }

def endOversize (s : DockerStream) (region : Bytes) : DockerStream × Bytes :=
  if s.discarding ∧ newline ∈ region then ({ s with discarding := false }, afterNewline region)
  else (s, [])

def dropPayload (s : DockerStream) : DockerStream × Bytes :=
  let drop := min s.skipPayload s.buf.length
  endOversize { s with buf := s.buf.drop drop, skipPayload := s.skipPayload - drop }
    (s.buf.take drop)

def declaredSize (buf : Bytes) : Nat := fromBytes ((buf.drop 4).take 4)

def takeFrame (cfg : Config) (s : DockerStream) (size : Nat) : DockerStream × Bytes :=
  let streamType := s.buf.headD 0
  let payload := (s.buf.drop header).take size
  if streamType = 2 ∧ cfg.sink = true then
    ({ s with buf := s.buf.drop (header + size), sunk := s.sunk ++ [payload] }, [])
  else ({ s with buf := s.buf.drop (header + size) }, payload)

/-- One pass of the loop of `_demux`. -/
def demuxPass (cfg : Config) (s : DockerStream) : Pass DockerStream UInt8 :=
  if s.skipPayload ≠ 0 then
    if (dropPayload s).1.skipPayload ≠ 0 then .stop (dropPayload s).1 (dropPayload s).2
    else .again (dropPayload s).1 (dropPayload s).2
  else if s.buf.length < header then .stop s []
  -- before the stream type is looked at
  else if cfg.Over (declaredSize s.buf) then
    .again (noteOversize { s with buf := s.buf.drop header, skipPayload := declaredSize s.buf }) []
  else if s.buf.length < header + declaredSize s.buf then .stop s []
  else .again (takeFrame cfg s (declaredSize s.buf)).1 (takeFrame cfg s (declaredSize s.buf)).2

def demux (cfg : Config) (s : DockerStream) (chunk : Bytes) : DockerStream × Bytes :=
  loop (demuxPass cfg) (·.buf.length) { s with buf := s.buf ++ chunk }

/-- Put what `_demux` returns behind the pending bytes. -/
def pend (r : DockerStream × Bytes) : DockerStream := { r.1 with pending := r.1.pending ++ r.2 }

/-- `self._pending += self._demux(chunk)`. -/
def feed (cfg : Config) (s : DockerStream) (chunk : Bytes) : DockerStream := pend (demux cfg s chunk)

/-- At the end of the socket, and where it raises, the chunk is empty. -/
def recv (s : DockerStream) : DockerStream × Bytes :=
  match s.sock with
  | [] => (s, [])
  | chunk :: sock => ({ s with sock := sock }, chunk)

def dropPending (cfg : Config) (s : DockerStream) : DockerStream :=
  if cfg.Over s.pending.length then noteOversize { s with pending := [] } else s

/-- One pass of the loop of `readline`. A line is what it puts out at its end,
and the empty one stands for the end of the stream. -/
def readlinePass (cfg : Config) (s : DockerStream) : Pass DockerStream UInt8 :=
  if newline ∈ s.pending then
    let line := beforeNewline s.pending
    let s := { s with pending := afterNewline s.pending }
    if s.discarding then .again { s with discarding := false } []
    else if cfg.Over line.length then .again { s with oversizeLines := s.oversizeLines + 1 } []
    else .stop s (line ++ [newline])
  else
    let r := recv (dropPending cfg s)
    if r.2 = [] then
      .stop { r.1 with closed := true, pending := [] } (if r.1.discarding then [] else r.1.pending)
    else .again (feed cfg r.1 r.2) []

/-- The bytes the stream holds or has yet to get, and one for each `recv`. -/
def rank (s : DockerStream) : Nat :=
  s.pending.length + s.buf.length + s.sock.flatten.length + s.sock.length

def readline (cfg : Config) (s : DockerStream) : DockerStream × Bytes :=
  loop (readlinePass cfg) rank s

/-- A reader calls `readline` until it returns the empty line. -/
def readlinesPass (cfg : Config) (s : DockerStream) : Pass DockerStream Bytes :=
  let r := readline cfg s
  if r.2 = [] then .stop r.1 [] else .again r.1 [r.2]

def readlines (cfg : Config) (s : DockerStream) : DockerStream × List Bytes :=
  loop (readlinesPass cfg) rank s

theorem Config.Over.mono {cfg : Config} {m n : Nat} (h : cfg.Over m) (hmn : m ≤ n) : cfg.Over n :=
  ⟨h.1, Int.lt_of_lt_of_le h.2 (Int.ofNat_le.mpr hmn)⟩

theorem not_over_zero (cfg : Config) : ¬ cfg.Over 0 := fun h => Int.lt_asymm h.1 h.2

theorem Config.Over.two_le {cfg : Config} {n : Nat} (h : cfg.Over n) : 2 ≤ n := by
  obtain ⟨hpos, hlt⟩ := h
  omega

theorem not_over_iff {cfg : Config} {n : Nat} :
    ¬ cfg.Over n ↔ cfg.maxLine ≤ 0 ∨ (n : Int) ≤ cfg.maxLine := by
  rw [Config.Over, not_and_or, Int.not_lt, Int.not_lt]

theorem afterNewline_length {bs : Bytes} (h : newline ∈ bs) :
    (afterNewline bs).length + (beforeNewline bs).length + 1 = bs.length := by
  have hsplit := congrArg List.length (List.takeWhile_append_dropWhile (p := (· != newline)) (l := bs))
  have hne : bs.dropWhile (· != newline) ≠ [] := by
    rw [Ne, List.dropWhile_eq_nil_iff]
    exact fun hall => absurd (hall newline h) (by simp)
  have hpos := List.length_pos_iff.mpr hne
  rw [List.length_append] at hsplit
  rw [afterNewline, beforeNewline, List.length_tail]
  omega

theorem noteOversize_same (s : DockerStream) :
    (noteOversize s).sock = s.sock ∧ (noteOversize s).buf = s.buf ∧
      (noteOversize s).pending = s.pending ∧ (noteOversize s).skipPayload = s.skipPayload := by
  rw [noteOversize]
  split <;> exact ⟨rfl, rfl, rfl, rfl⟩

theorem endOversize_same (s : DockerStream) (region : Bytes) :
    (endOversize s region).1.sock = s.sock ∧ (endOversize s region).1.buf = s.buf ∧
      (endOversize s region).1.pending = s.pending ∧
        (endOversize s region).1.skipPayload = s.skipPayload := by
  rw [endOversize]
  split <;> exact ⟨rfl, rfl, rfl, rfl⟩

theorem endOversize_length (s : DockerStream) (region : Bytes) :
    (endOversize s region).2.length ≤ region.length := by
  rw [endOversize]
  split
  next h =>
    have := afterNewline_length h.2
    simp only
    omega
  next => exact Nat.zero_le _

theorem dropPayload_buf (s : DockerStream) :
    (dropPayload s).1.buf = s.buf.drop (min s.skipPayload s.buf.length) :=
  (endOversize_same _ _).2.1

theorem dropPayload_skipPayload (s : DockerStream) :
    (dropPayload s).1.skipPayload = s.skipPayload - min s.skipPayload s.buf.length :=
  (endOversize_same _ _).2.2.2

theorem dropPayload_length (s : DockerStream) :
    (dropPayload s).1.buf.length + (dropPayload s).2.length ≤ s.buf.length := by
  have hout : (dropPayload s).2.length ≤ (s.buf.take (min s.skipPayload s.buf.length)).length :=
    endOversize_length _ _
  rw [dropPayload_buf, List.length_drop]
  rw [List.length_take] at hout
  omega

theorem takeFrame_buf (cfg : Config) (s : DockerStream) (size : Nat) :
    (takeFrame cfg s size).1.buf = s.buf.drop (header + size) := by
  rw [takeFrame]
  split <;> rfl

theorem takeFrame_length (cfg : Config) (s : DockerStream) (size : Nat) :
    (takeFrame cfg s size).1.buf.length + (takeFrame cfg s size).2.length ≤ s.buf.length := by
  rw [takeFrame_buf, List.length_drop]
  have hout : (takeFrame cfg s size).2.length ≤ min size (s.buf.length - header) := by
    rw [takeFrame]
    split <;> simp
  omega

theorem noteOversize_buf (s : DockerStream) : (noteOversize s).buf = s.buf := by
  rw [noteOversize]
  split <;> rfl

theorem demuxPass_length (cfg : Config) (s : DockerStream) :
    (demuxPass cfg s).state.buf.length + (demuxPass cfg s).out.length ≤ s.buf.length := by
  have hdrop := dropPayload_length s
  have htake := takeFrame_length cfg s (declaredSize s.buf)
  rw [demuxPass]
  split_ifs <;> simp [Pass.state, Pass.out, noteOversize_buf, hdrop, htake]

theorem demuxPass_falls (cfg : Config) : Falls (demuxPass cfg) (·.buf.length) := by
  intro s t out h
  have hdrop := dropPayload_buf s
  have hskip := dropPayload_skipPayload s
  have htake := takeFrame_buf cfg s (declaredSize s.buf)
  rw [demuxPass] at h
  split_ifs at h
  all_goals
    cases h
    simp only [header, noteOversize_buf, hdrop, htake, List.length_drop] at *
    omega

/-- The part of the stream that `_demux` does not touch. -/
def Untouched (s t : DockerStream) : Prop := t.sock = s.sock ∧ t.pending = s.pending

theorem demuxPass_untouched (cfg : Config) (s : DockerStream) :
    Untouched s (demuxPass cfg s).state := by
  have hdrop : Untouched s (dropPayload s).1 := by
    have h := endOversize_same { s with
      buf := s.buf.drop (min s.skipPayload s.buf.length)
      skipPayload := s.skipPayload - min s.skipPayload s.buf.length }
      (s.buf.take (min s.skipPayload s.buf.length))
    exact ⟨h.1, h.2.2.1⟩
  have hnote : ∀ t, Untouched s t → Untouched s (noteOversize t) := by
    intro t ht
    rw [noteOversize]
    split <;> exact ht
  have htake : Untouched s (takeFrame cfg s (declaredSize s.buf)).1 := by
    rw [takeFrame]
    split <;> exact ⟨rfl, rfl⟩
  rw [demuxPass]
  split_ifs
  · exact hdrop
  · exact hdrop
  · exact ⟨rfl, rfl⟩
  · exact hnote _ ⟨rfl, rfl⟩
  · exact ⟨rfl, rfl⟩
  · exact htake

theorem demux_untouched (cfg : Config) (s : DockerStream) (chunk : Bytes) :
    Untouched s (demux cfg s chunk).1 := by
  refine loop_invariant (demuxPass_falls cfg) (I := Untouched s) (fun t ht => ?_) ⟨rfl, rfl⟩
  have h := demuxPass_untouched cfg t
  exact ⟨h.1.trans ht.1, h.2.trans ht.2⟩

theorem demux_length (cfg : Config) (s : DockerStream) (chunk : Bytes) :
    (demux cfg s chunk).1.buf.length + (demux cfg s chunk).2.length ≤
      s.buf.length + chunk.length := by
  have h := loop_rank_le (demuxPass_falls cfg) (demuxPass_length cfg)
    { s with buf := s.buf ++ chunk }
  rwa [List.length_append] at h

theorem feed_sock (cfg : Config) (s : DockerStream) (chunk : Bytes) :
    (feed cfg s chunk).sock = s.sock :=
  (demux_untouched cfg s chunk).1

theorem feed_pending (cfg : Config) (s : DockerStream) (chunk : Bytes) :
    (feed cfg s chunk).pending = s.pending ++ (demux cfg s chunk).2 :=
  congrArg (· ++ _) (demux_untouched cfg s chunk).2

theorem rank_feed_le (cfg : Config) (s : DockerStream) (chunk : Bytes) :
    rank (feed cfg s chunk) ≤ rank s + chunk.length := by
  have hbuf : (feed cfg s chunk).buf = (demux cfg s chunk).1.buf := rfl
  have hlen := demux_length cfg s chunk
  rw [rank, rank, feed_sock, feed_pending, hbuf, List.length_append]
  omega

theorem rank_dropPending_le (cfg : Config) (s : DockerStream) :
    rank (dropPending cfg s) ≤ rank s := by
  rw [dropPending]
  split
  · rw [noteOversize]
    split <;> simp [rank]
  · exact Nat.le_refl _

theorem dropPending_untouched (cfg : Config) (s : DockerStream) :
    (dropPending cfg s).sock = s.sock ∧ (dropPending cfg s).buf = s.buf ∧
      (dropPending cfg s).skipPayload = s.skipPayload := by
  rw [dropPending]
  split
  · have h := noteOversize_same { s with pending := [] }
    exact ⟨h.1, h.2.1, h.2.2.2⟩
  · exact ⟨rfl, rfl, rfl⟩

theorem rank_cons {s : DockerStream} {chunk : Bytes} {sock : List Bytes}
    (h : s.sock = chunk :: sock) : rank s = rank { s with sock := sock } + chunk.length + 1 := by
  simp only [rank, h, List.flatten_cons, List.length_append, List.length_cons]
  omega

section Passes

variable {cfg : Config} {s : DockerStream}

variable (cfg) in
theorem readlinePass_newline (hn : newline ∈ s.pending) (hd : s.discarding = true) :
    readlinePass cfg s =
      .again { s with pending := afterNewline s.pending, discarding := false } [] := by
  rw [readlinePass, if_pos hn]
  exact if_pos hd

theorem readlinePass_over (hn : newline ∈ s.pending) (hd : s.discarding = false)
    (ho : cfg.Over (beforeNewline s.pending).length) :
    readlinePass cfg s = .again { s with
      pending := afterNewline s.pending, oversizeLines := s.oversizeLines + 1 } [] := by
  rw [readlinePass, if_pos hn]
  simp only [hd, Bool.false_eq_true, if_false, if_pos ho]

theorem readlinePass_line (hn : newline ∈ s.pending) (hd : s.discarding = false)
    (ho : ¬ cfg.Over (beforeNewline s.pending).length) :
    readlinePass cfg s =
      .stop { s with pending := afterNewline s.pending } (beforeNewline s.pending ++ [newline]) := by
  rw [readlinePass, if_pos hn]
  simp only [hd, Bool.false_eq_true, if_false, if_neg ho]

variable (cfg) in
theorem readlinePass_recv {chunk : Bytes} {sock : List Bytes} (hn : newline ∉ s.pending)
    (hs : s.sock = chunk :: sock) (hc : chunk ≠ []) :
    readlinePass cfg s = .again (feed cfg (dropPending cfg { s with sock := sock }) chunk) [] := by
  have hrecv : recv (dropPending cfg s) = (dropPending cfg { s with sock := sock }, chunk) := by
    rw [recv, (dropPending_untouched cfg s).1.trans hs]
    simp only [dropPending, noteOversize]
    split_ifs <;> rfl
  rw [readlinePass, if_neg hn]
  simp only [hrecv, if_neg hc]

variable (cfg) in
theorem readlinePass_end (hn : newline ∉ s.pending) (hs : s.sock.headD [] = []) :
    readlinePass cfg s = .stop
      { dropPending cfg s with sock := s.sock.tail, closed := true, pending := [] }
      (if (dropPending cfg s).discarding then [] else (dropPending cfg s).pending) := by
  have hsock := (dropPending_untouched cfg s).1
  rw [readlinePass, if_neg hn]
  cases h : s.sock with
  | nil =>
      rw [h] at hsock
      simp only [recv, hsock, if_true, List.tail_nil]
  | cons chunk sock =>
      rw [h] at hs hsock
      cases (show chunk = [] from hs)
      simp only [recv, hsock, if_true, List.tail_cons]

end Passes

theorem readlinePass_rank (cfg : Config) (s : DockerStream) :
    rank (readlinePass cfg s).state + (readlinePass cfg s).out.length ≤ rank s ∧
      ∀ t out, readlinePass cfg s = .again t out → rank t < rank s := by
  by_cases hn : newline ∈ s.pending
  · have hlen := afterNewline_length hn
    by_cases hd : s.discarding = true
    · rw [readlinePass_newline _ hn hd]
      simp only [Pass.state, Pass.out, rank, List.length_nil, Pass.again.injEq]
      refine ⟨by omega, ?_⟩
      rintro t out ⟨rfl, -⟩
      simp only
      omega
    · rw [Bool.not_eq_true] at hd
      by_cases ho : cfg.Over (beforeNewline s.pending).length
      · rw [readlinePass_over hn hd ho]
        simp only [Pass.state, Pass.out, rank, List.length_nil, Pass.again.injEq]
        refine ⟨by omega, ?_⟩
        rintro t out ⟨rfl, -⟩
        simp only
        omega
      · rw [readlinePass_line hn hd ho]
        refine ⟨?_, fun t out h => by cases h⟩
        simp only [Pass.state, Pass.out, rank, List.length_append, List.length_singleton]
        omega
  · have hdrop := rank_dropPending_le cfg s
    have hsock := (dropPending_untouched cfg s).1
    by_cases hs : s.sock.headD [] = []
    · rw [readlinePass_end _ hn hs]
      refine ⟨?_, fun t out h => by cases h⟩
      generalize dropPending cfg s = d at hdrop hsock ⊢
      have hout : (if d.discarding then [] else d.pending).length ≤ d.pending.length := by
        split <;> simp
      have htail : s.sock.tail.flatten.length + s.sock.tail.length ≤
          s.sock.flatten.length + s.sock.length := by
        cases s.sock <;> simp
        omega
      rw [rank, hsock] at hdrop
      simp only [Pass.state, Pass.out, rank, List.length_nil]
      rw [rank] at hdrop
      omega
    · obtain ⟨chunk, sock, h⟩ : ∃ chunk sock, s.sock = chunk :: sock := by
        cases h : s.sock with
        | nil => simp [h] at hs
        | cons chunk sock => exact ⟨chunk, sock, rfl⟩
      rw [h] at hs
      rw [readlinePass_recv _ hn h hs]
      have hcons := rank_cons h
      have hdrop := rank_dropPending_le cfg { s with sock := sock }
      have hfeed := rank_feed_le cfg (dropPending cfg { s with sock := sock }) chunk
      refine ⟨?_, fun t out h => ?_⟩
      · rw [Pass.state, Pass.out, List.length_nil]
        omega
      · cases h
        omega

theorem readlinePass_falls (cfg : Config) : Falls (readlinePass cfg) rank :=
  fun s => (readlinePass_rank cfg s).2

theorem readline_rank (cfg : Config) (s : DockerStream) :
    rank (readline cfg s).1 + (readline cfg s).2.length ≤ rank s :=
  loop_rank_le (readlinePass_falls cfg) (fun s => (readlinePass_rank cfg s).1) s

theorem readlinesPass_falls (cfg : Config) : Falls (readlinesPass cfg) rank := by
  intro s t out h
  have hrank := readline_rank cfg s
  simp only [readlinesPass] at h
  split_ifs at h with hline
  cases h
  have hpos := List.length_pos_iff.mpr hline
  omega

section Readlines

variable {cfg : Config} {s t : DockerStream}

theorem readlines_again (h : readlinePass cfg s = .again t []) :
    readlines cfg s = readlines cfg t := by
  have hline : readline cfg s = readline cfg t := loop_again (readlinePass_falls cfg) h
  have hpass : readlinesPass cfg s = readlinesPass cfg t := by
    rw [readlinesPass, hline]
    rfl
  rw [readlines, readlines]
  cases hp : readlinesPass cfg t with
  | stop u out => rw [loop_stop (hpass.trans hp), loop_stop hp]
  | again u out =>
      rw [loop_again (readlinesPass_falls cfg) (hpass.trans hp),
        loop_again (readlinesPass_falls cfg) hp]

theorem readlines_line {line : Bytes} (h : readlinePass cfg s = .stop t line) (hne : line ≠ []) :
    readlines cfg s = ((readlines cfg t).1, line :: (readlines cfg t).2) := by
  have hline : readline cfg s = (t, line) := loop_stop h
  have hpass : readlinesPass cfg s = .again t [line] := by
    rw [readlinesPass, hline]
    exact if_neg hne
  exact loop_again (readlinesPass_falls cfg) hpass

theorem readlines_end (h : readlinePass cfg s = .stop t []) : readlines cfg s = (t, []) := by
  have hline : readline cfg s = (t, []) := loop_stop h
  have hpass : readlinesPass cfg s = .stop t [] := by
    rw [readlinesPass, hline]
    exact if_pos rfl
  exact loop_stop hpass

variable (cfg) in
theorem readlines_ended (hp : s.pending = []) (hs : s.sock = []) :
    (readlines cfg s).2 = [] ∧ (readlines cfg s).1.oversizeLines = s.oversizeLines ∧
      (readlines cfg s).1.sunk = s.sunk := by
  have hdrop : dropPending cfg s = s := by
    rw [dropPending, hp]
    exact if_neg (not_over_zero cfg)
  have hpass := readlinePass_end cfg (s := s) (by simp [hp]) (by rw [hs]; rfl)
  simp only [hdrop, hp, ite_self] at hpass
  rw [readlines_end hpass]
  exact ⟨rfl, rfl, rfl⟩

end Readlines

end AgentWeb.Demux
