import AgentWeb.Demux

namespace AgentWeb.Buffers

open Loops Demux

/-- Where in `readline` the stream is: at the head of its loop, at the `recv`, or
in the loop of `_demux` with what that loop has put out so far. -/
inductive Point
  | head
  | recv
  | demux (out : Bytes)

/-- The states a stream goes through, over all calls of `readline`. A call that
has returned leaves the stream at the head, where the next one finds it. -/
inductive Reached (cfg : Config) (chunks : List Bytes) : Point → DockerStream → Prop
  | new : Reached cfg chunks .head { sock := chunks }
  | line {s : DockerStream} (h : Reached cfg chunks .head s) (hn : newline ∈ s.pending) :
      Reached cfg chunks .head (readlinePass cfg s).state
  | await {s : DockerStream} (h : Reached cfg chunks .head s) (hn : newline ∉ s.pending) :
      Reached cfg chunks .recv (dropPending cfg s)
  | ended {s : DockerStream} (h : Reached cfg chunks .recv s) (he : (recv s).2 = []) :
      Reached cfg chunks .head { (recv s).1 with closed := true, pending := [] }
  | received {s : DockerStream} (h : Reached cfg chunks .recv s) (he : (recv s).2 ≠ []) :
      Reached cfg chunks (.demux []) { (recv s).1 with buf := (recv s).1.buf ++ (recv s).2 }
  | demuxAgain {s t : DockerStream} {out more : Bytes} (h : Reached cfg chunks (.demux out) s)
      (hp : demuxPass cfg s = .again t more) : Reached cfg chunks (.demux (out ++ more)) t
  | demuxStop {s t : DockerStream} {out more : Bytes} (h : Reached cfg chunks (.demux out) s)
      (hp : demuxPass cfg s = .stop t more) :
      Reached cfg chunks .head (pend (t, out ++ more))

section Covers

variable {cfg : Config} {chunks : List Bytes}

theorem reached_demux {s : DockerStream} {out : Bytes} (h : Reached cfg chunks (.demux out) s) :
    Reached cfg chunks .head (pend ((loop (demuxPass cfg) (·.buf.length) s).1,
      out ++ (loop (demuxPass cfg) (·.buf.length) s).2)) := by
  induction s using (demuxPass_falls cfg).induction generalizing out with
  | stop s t more hb =>
      rw [loop_stop hb]
      exact .demuxStop h hb
  | again s t more hb ih =>
      have hrest := ih (.demuxAgain h hb)
      rw [loop_again (demuxPass_falls cfg) hb]
      rwa [List.append_assoc] at hrest

theorem reached_pass {s : DockerStream} (h : Reached cfg chunks .head s) :
    Reached cfg chunks .head (readlinePass cfg s).state := by
  by_cases hn : newline ∈ s.pending
  · exact .line h hn
  · have hawait := Reached.await h hn
    rw [readlinePass, if_neg hn]
    by_cases he : (recv (dropPending cfg s)).2 = []
    · simp only [if_pos he, Pass.state]
      exact .ended hawait he
    · simp only [if_neg he, Pass.state]
      exact reached_demux (.received hawait he)

theorem reached_readline {s : DockerStream} (h : Reached cfg chunks .head s) :
    Reached cfg chunks .head (readline cfg s).1 :=
  loop_invariant (readlinePass_falls cfg) (fun _ => reached_pass) h

theorem reached_readlines (cfg : Config) (chunks : List Bytes) :
    Reached cfg chunks .head (readlines cfg { sock := chunks }).1 := by
  refine loop_invariant (readlinesPass_falls cfg) (I := Reached cfg chunks .head)
    (fun s h => ?_) .new
  rw [readlinesPass]
  split <;> exact reached_readline h

end Covers

/-- The most a `recv` gives. -/
def recvSize : Nat := 4096

def Bounded (maxLine : Nat) : Point → DockerStream → Prop
  | .head, s => s.buf.length < header + maxLine ∧ s.pending.length < 2 * maxLine + 4104
  | .recv, s => s.buf.length < header + maxLine ∧ s.pending.length ≤ maxLine
  | .demux out, s => out.length + s.buf.length < header + maxLine + recvSize ∧
      s.pending.length ≤ maxLine

def Small (s : DockerStream) : Prop := ∀ chunk ∈ s.sock, chunk.length ≤ recvSize

section Bounds

variable {maxLine : Nat} {sink : Bool}

theorem over_iff (hmax : 1 ≤ maxLine) (n : Nat) :
    (⟨maxLine, sink⟩ : Config).Over n ↔ maxLine < n := by
  rw [Config.Over]
  dsimp only
  omega

theorem demuxPass_stop_buf (hmax : 1 ≤ maxLine) {s t : DockerStream} {out : Bytes}
    (h : demuxPass ⟨maxLine, sink⟩ s = .stop t out) : t.buf.length < header + maxLine := by
  have hdrop := dropPayload_buf s
  have hskip := dropPayload_skipPayload s
  rw [demuxPass] at h
  split_ifs at h with hs hleft hshort hover hpart
  · cases h
    rw [hdrop, List.length_drop, header]
    omega
  · cases h
    omega
  · cases h
    rw [over_iff hmax] at hover
    omega

theorem length_recv {s : DockerStream} (h : Small s) : (recv s).2.length ≤ recvSize := by
  rw [recv]
  split
  next => exact Nat.zero_le _
  next chunk sock hs => exact h chunk (hs ▸ List.mem_cons_self)

theorem recv_same (s : DockerStream) :
    (recv s).1.buf = s.buf ∧ (recv s).1.pending = s.pending ∧ (recv s).1.sock <:+ s.sock := by
  rw [recv]
  split
  next => exact ⟨rfl, rfl, List.suffix_refl _⟩
  next chunk sock hs => exact ⟨rfl, rfl, hs ▸ List.suffix_cons chunk sock⟩

theorem dropPending_length (hmax : 1 ≤ maxLine) (s : DockerStream) :
    (dropPending ⟨maxLine, sink⟩ s).pending.length ≤ maxLine := by
  rw [dropPending]
  split
  next ho =>
    rw [(noteOversize_same _).2.2.1]
    exact Nat.zero_le _
  next ho =>
    rw [over_iff hmax] at ho
    omega

theorem readlinePass_takes (cfg : Config) {s : DockerStream} (hn : newline ∈ s.pending) :
    (readlinePass cfg s).state.buf = s.buf ∧ (readlinePass cfg s).state.sock = s.sock ∧
      (readlinePass cfg s).state.pending = afterNewline s.pending := by
  by_cases hd : s.discarding = true
  · rw [readlinePass_newline cfg hn hd]
    exact ⟨rfl, rfl, rfl⟩
  · rw [Bool.not_eq_true] at hd
    by_cases ho : cfg.Over (beforeNewline s.pending).length
    · rw [readlinePass_over hn hd ho]
      exact ⟨rfl, rfl, rfl⟩
    · rw [readlinePass_line hn hd ho]
      exact ⟨rfl, rfl, rfl⟩

theorem bounded_demuxStop (hmax : 1 ≤ maxLine) {s t : DockerStream} {out more : Bytes}
    (hs : Bounded maxLine (.demux out) s) (hp : demuxPass ⟨maxLine, sink⟩ s = .stop t more) :
    Bounded maxLine .head (pend (t, out ++ more)) := by
  obtain ⟨hbuf, hpending⟩ := hs
  have hlen := demuxPass_length ⟨maxLine, sink⟩ s
  have hsame := (demuxPass_untouched ⟨maxLine, sink⟩ s).2
  rw [hp] at hlen hsame
  simp only [Pass.state, Pass.out] at hlen hsame
  have hstop : t.buf.length < header + maxLine := demuxPass_stop_buf hmax hp
  refine ⟨hstop, ?_⟩
  simp only [pend, hsame, List.length_append]
  rw [header, recvSize] at hbuf
  omega

theorem reached_bounded (hmax : 1 ≤ maxLine) {chunks : List Bytes}
    (hsmall : ∀ chunk ∈ chunks, chunk.length ≤ recvSize) {p : Point} {s : DockerStream}
    (h : Reached ⟨maxLine, sink⟩ chunks p s) : Bounded maxLine p s ∧ Small s := by
  induction h with
  | new =>
      have hroom : 0 < header + maxLine := Nat.add_pos_left (by decide) _
      exact ⟨⟨hroom, by simp⟩, hsmall⟩
  | @line s h hn ih =>
      obtain ⟨⟨hbuf, hpending⟩, hsock⟩ := ih
      obtain ⟨hb, hs, hp⟩ := readlinePass_takes ⟨maxLine, sink⟩ hn
      have hlen := afterNewline_length hn
      refine ⟨⟨by rwa [hb], ?_⟩, by rwa [Small, hs]⟩
      rw [hp]
      omega
  | @await s h hn ih =>
      obtain ⟨⟨hbuf, -⟩, hsock⟩ := ih
      obtain ⟨hs, hb, -⟩ := dropPending_untouched ⟨maxLine, sink⟩ s
      exact ⟨⟨by rwa [hb], dropPending_length hmax s⟩, by rwa [Small, hs]⟩
  | @ended s h he ih =>
      obtain ⟨⟨hbuf, -⟩, hsock⟩ := ih
      obtain ⟨hb, -, hs⟩ := recv_same s
      exact ⟨⟨by rwa [hb], by simp⟩, fun chunk hc => hsock chunk (hs.mem hc)⟩
  | @received s h he ih =>
      obtain ⟨⟨hbuf, hpending⟩, hsock⟩ := ih
      obtain ⟨hb, hp, hs⟩ := recv_same s
      have hchunk := length_recv hsock
      refine ⟨⟨?_, by rwa [hp]⟩, fun chunk hc => hsock chunk (hs.mem hc)⟩
      simp only [List.length_nil, List.length_append, hb]
      omega
  | @demuxAgain s t out more h hp ih =>
      obtain ⟨⟨hbuf, hpending⟩, hsock⟩ := ih
      have hlen := demuxPass_length ⟨maxLine, sink⟩ s
      obtain ⟨hs, hsame⟩ := demuxPass_untouched ⟨maxLine, sink⟩ s
      rw [hp] at hlen hs hsame
      simp only [Pass.state, Pass.out] at hlen hs hsame
      refine ⟨⟨?_, by rwa [hsame]⟩, by rwa [Small, hs]⟩
      rw [List.length_append]
      omega
  | @demuxStop s t out more h hp ih =>
      have hs := (demuxPass_untouched ⟨maxLine, sink⟩ s).1
      rw [hp] at hs
      refine ⟨bounded_demuxStop hmax ih.1 hp, ?_⟩
      rw [Small, show (pend (t, out ++ more)).sock = s.sock from hs]
      exact ih.2

end Bounds

/-- Whatever the container sends, both buffers are within the limit at each
`recv`, the pending bytes never go far beyond it, and `_demux` comes to its end. -/
theorem attach_buffers_bounded {maxLine : Nat} (hmax : 1 ≤ maxLine) (sink : Bool)
    {chunks : List Bytes} (hsmall : ∀ chunk ∈ chunks, chunk.length ≤ 4096) {p : Point}
    {s : DockerStream} (h : Reached ⟨maxLine, sink⟩ chunks p s) :
    (p = .recv → s.buf.length < 8 + maxLine ∧ s.pending.length ≤ maxLine) ∧
      s.pending.length ≤ 2 * maxLine + 4104 ∧ Halts (demuxPass ⟨maxLine, sink⟩) s := by
  have hb := (reached_bounded hmax hsmall h).1
  refine ⟨?_, ?_, (demuxPass_falls ⟨maxLine, sink⟩).halts s⟩
  · rintro rfl
    exact hb
  · cases p with
    | head => exact hb.2.le
    | recv => exact hb.2.trans (by omega)
    | demux out => exact hb.2.trans (by omega)

/-- A frame with the text `ab`, the header and a part of the payload of a frame
over the limit, and then the rest of that payload and a part of a header. -/
def sent : List Bytes :=
  [[1, 0, 0, 0, 0, 0, 0, 2, 97, 98] ++ [1, 0, 0, 0, 0, 0, 0, 9, 99, 99, 99],
    [99, 99, 99, 99, 99, 99] ++ [1, 0, 0]]

/-- The stream at its second and its third `recv`. -/
def atRecv : DockerStream × DockerStream :=
  let s := (readlinePass ⟨4, true⟩ { sock := sent }).state
  (dropPending ⟨4, true⟩ s, dropPending ⟨4, true⟩ (readlinePass ⟨4, true⟩ s).state)

theorem attach_buffers_bounded_sent :
    (atRecv.1.pending = [97, 98] ∧ atRecv.1.skipPayload = 6) ∧
      (atRecv.2.pending = [97, 98] ∧ atRecv.2.buf = [1, 0, 0]) ∧
      ∀ s ∈ [atRecv.1, atRecv.2], (Point.recv = .recv → s.buf.length < 8 + 4 ∧
        s.pending.length ≤ 4) ∧ s.pending.length ≤ 2 * 4 + 4104 ∧ Halts (demuxPass ⟨4, true⟩) s := by
  refine ⟨by decide +kernel, by decide +kernel, fun s hs => ?_⟩
  have hfirst : Reached ⟨4, true⟩ sent .head (readlinePass ⟨4, true⟩ { sock := sent }).state :=
    reached_pass .new
  have hnext := reached_pass hfirst
  refine @attach_buffers_bounded 4 (by decide) true sent (by decide) .recv s ?_
  rcases List.mem_pair.mp hs with rfl | rfl
  · exact .await hfirst (by decide +kernel)
  · exact .await hnext (by decide +kernel)

end AgentWeb.Buffers
