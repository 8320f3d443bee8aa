import AgentWeb.BlankLines
import AgentWeb.PyText
import Mathlib.Algebra.Order.BigOperators.Group.List
import Mathlib.Algebra.Order.Group.Nat

namespace AgentWeb.StderrFrames

open PyText Loops Demux Frames BlankLines

def withSink (maxLine : Int) : Config := ⟨maxLine, true⟩

/-- The lines a reader gets from a stream that has a `stderr_sink`. -/
def heard (decode : Bytes → Str) (maxLine : Int) (chunks : List Chunk) : List Str :=
  (readlines (withSink maxLine) { sock := chunks.map Chunk.bytes }).2.map decode

def Replaces (f g : Frame) : Prop := g.kind = f.kind ∧ (f.kind ≠ 2 → g.payload = f.payload)

def Chunkwise (R : Frame → Frame → Prop) : List Chunk → List Chunk → Prop :=
  List.Forall₂ fun c d => List.Forall₂ R c.frames d.frames

/-- Whatever frames of these kinds and sizes hold, replacing the payloads of the
stderr frames does not change the lines. -/
def Unheard (decode : Bytes → Str) (maxLine : Int) (chunks chunks' : List Chunk) : Prop :=
  ∀ cs cs', Chunkwise SameHeader chunks cs → Chunkwise SameHeader chunks' cs' →
    Chunkwise Replaces cs cs' → heard decode maxLine cs = heard decode maxLine cs'

def Quiet (maxLine : Int) (chunks : List Chunk) : Prop :=
  ∀ c ∈ chunks, ∀ f ∈ c.frames, f.kind = 2 → maxLine ≤ 0 ∨ f.size ≤ maxLine

def rewire (s : DockerStream) (sock sunk : List Bytes) : DockerStream :=
  { s with sock := sock, sunk := sunk }

theorem noteOversize_rewire (s : DockerStream) (sock sunk : List Bytes) :
    noteOversize (rewire s sock sunk) = rewire (noteOversize s) sock sunk := by
  have hd : (rewire s sock sunk).discarding = s.discarding := rfl
  rw [noteOversize, noteOversize, hd]
  split <;> rfl

theorem endOversize_rewire (s : DockerStream) (sock sunk : List Bytes) (region : Bytes) :
    endOversize (rewire s sock sunk) region =
      (rewire (endOversize s region).1 sock sunk, (endOversize s region).2) := by
  have hd : (rewire s sock sunk).discarding = s.discarding := rfl
  rw [endOversize, endOversize, hd]
  split <;> rfl

theorem dropPending_rewire (cfg : Config) (s : DockerStream) (sock sunk : List Bytes) :
    dropPending cfg (rewire s sock sunk) = rewire (dropPending cfg s) sock sunk := by
  have hp : (rewire s sock sunk).pending = s.pending := rfl
  rw [dropPending, dropPending, hp]
  split
  · exact noteOversize_rewire { s with pending := [] } sock sunk
  · rfl

def Mutes (maxLine : Int) (f g : Frame) : Prop :=
  Replaces f g ∧
    (f.kind = 2 → ¬ (withSink maxLine).Over f.size ∧ ¬ (withSink maxLine).Over g.size)

section

variable {maxLine : Int}

theorem receive_mutes {f g : Frame} (h : Mutes maxLine f g) (s : DockerStream)
    (sock sunk : List Bytes) : ∃ sunk', receive (withSink maxLine) (rewire s sock sunk) g =
      (rewire (receive (withSink maxLine) s f).1 sock sunk', (receive (withSink maxLine) s f).2) := by
  obtain ⟨⟨hkind, hpayload⟩, hsize⟩ := h
  by_cases herr : f.kind = 2
  · obtain ⟨hf, hg⟩ := hsize herr
    have hfe : f.Stderr (withSink maxLine) := ⟨herr, rfl⟩
    have hge : g.Stderr (withSink maxLine) := ⟨hkind.trans herr, rfl⟩
    refine ⟨sunk ++ [g.payload], ?_⟩
    rw [receive, receive, if_neg hf, if_neg hg, if_pos hfe, if_pos hge]
    rfl
  · have hfe : ¬ f.Stderr (withSink maxLine) := fun h => herr h.1
    have hge : ¬ g.Stderr (withSink maxLine) := fun h => herr (hkind.symm.trans h.1)
    have hp := hpayload herr
    refine ⟨sunk, ?_⟩
    rw [receive, receive, Frame.size, Frame.size, hp, if_neg hfe, if_neg hge]
    split
    · rw [noteOversize_rewire, endOversize_rewire]
    · rfl

theorem receiveAll_mutes {fs gs : List Frame} (h : List.Forall₂ (Mutes maxLine) fs gs)
    (s : DockerStream) (sock sunk : List Bytes) : ∃ sunk',
      receiveAll (withSink maxLine) (rewire s sock sunk) gs =
        (rewire (receiveAll (withSink maxLine) s fs).1 sock sunk',
          (receiveAll (withSink maxLine) s fs).2) := by
  induction h generalizing s sunk with
  | nil => exact ⟨sunk, rfl⟩
  | @cons f g fs gs hfg _ ih =>
      obtain ⟨sunk1, h1⟩ := receive_mutes hfg s sock sunk
      obtain ⟨sunk2, h2⟩ := ih (receive (withSink maxLine) s f).1 sunk1
      refine ⟨sunk2, ?_⟩
      simp only [receiveAll, h1, h2]

structure Alike (maxLine : Int) (s t : DockerStream) : Prop where
  between : Between s
  same : ∃ sock sunk, t = rewire s sock sunk
  socks : ∃ cs ds : List Chunk, s.sock = cs.map Chunk.bytes ∧ t.sock = ds.map Chunk.bytes ∧
    Chunkwise (Mutes maxLine) cs ds

theorem dropPending_between (cfg : Config) {s : DockerStream} (hb : Between s) :
    Between (dropPending cfg s) := by
  obtain ⟨-, hbuf, hskip⟩ := dropPending_untouched cfg s
  exact ⟨hbuf.trans hb.buf, hskip.trans hb.skipPayload⟩

theorem readlinePass_alike {s t : DockerStream} (h : Alike maxLine s t) :
    Pass.Alike (Alike maxLine) (readlinePass (withSink maxLine) s)
      (readlinePass (withSink maxLine) t) := by
  obtain ⟨hb, ⟨sock, sunk, rfl⟩, cs, ds, hcs, hds, hcd⟩ := h
  by_cases hn : newline ∈ s.pending
  · have hn' : newline ∈ (rewire s sock sunk).pending := hn
    by_cases hd : s.discarding = true
    · rw [readlinePass_newline _ hn hd, readlinePass_newline _ hn' hd]
      exact .again [] ⟨⟨hb.buf, hb.skipPayload⟩, ⟨sock, sunk, rfl⟩, cs, ds, hcs, hds, hcd⟩
    · rw [Bool.not_eq_true] at hd
      by_cases ho : (withSink maxLine).Over (beforeNewline s.pending).length
      · rw [readlinePass_over hn hd ho, readlinePass_over hn' hd ho]
        exact .again [] ⟨⟨hb.buf, hb.skipPayload⟩, ⟨sock, sunk, rfl⟩, cs, ds, hcs, hds, hcd⟩
      · rw [readlinePass_line hn hd ho, readlinePass_line hn' hd ho]
        exact .stop _ ⟨⟨hb.buf, hb.skipPayload⟩, ⟨sock, sunk, rfl⟩, cs, ds, hcs, hds, hcd⟩
  · have hn' : newline ∉ (rewire s sock sunk).pending := hn
    cases hcd with
    | nil =>
        have hdrop := dropPending_between (withSink maxLine) hb
        rw [readlinePass_end _ hn (by rw [hcs]; rfl), readlinePass_end _ hn' (by rw [hds]; rfl),
          dropPending_rewire]
        refine .stop _ ⟨⟨hdrop.buf, hdrop.skipPayload⟩, ⟨_, _, rfl⟩, [], [], ?_, ?_, .nil⟩
        · simp only [hcs]
          rfl
        · simp only [hds]
          rfl
    | @cons c d cs ds hcd hrest =>
        have hs : Between { s with sock := cs.map Chunk.bytes } := ⟨hb.buf, hb.skipPayload⟩
        rw [readlinePass_recv _ hn hcs c.bytes_ne_nil, readlinePass_recv _ hn' hds d.bytes_ne_nil]
        have hre : { rewire s sock sunk with sock := ds.map Chunk.bytes } =
          rewire { s with sock := cs.map Chunk.bytes } (ds.map Chunk.bytes) sunk := rfl
        rw [hre, dropPending_rewire]
        have hdrop := dropPending_between (withSink maxLine) hs
        have hsock := (dropPending_untouched (withSink maxLine) { s with sock := cs.map Chunk.bytes }).1
        generalize dropPending (withSink maxLine) { s with sock := cs.map Chunk.bytes } = u at *
        have hu : Between (rewire u (ds.map Chunk.bytes) sunk) := ⟨hdrop.buf, hdrop.skipPayload⟩
        obtain ⟨sunk', hall⟩ := receiveAll_mutes hcd u (ds.map Chunk.bytes) sunk
        have hbetween := receiveAll_between (withSink maxLine) hdrop c.frames
        have huntouched := receiveAll_untouched (withSink maxLine) u c.frames
        rw [Chunk.bytes, feed_encodeAll hdrop, Chunk.bytes, feed_encodeAll hu, hall]
        refine .again [] ⟨⟨hbetween.buf, hbetween.skipPayload⟩, ⟨_, _, rfl⟩, cs, ds, ?_, rfl, hrest⟩
        exact huntouched.1.trans hsock

theorem readlines_alike {s t : DockerStream} (h : Alike maxLine s t) :
    (readlines (withSink maxLine) s).2 = (readlines (withSink maxLine) t).2 := by
  have hline (s t : DockerStream) (h : Alike maxLine s t) :=
    loop_alike (readlinePass_falls _) (readlinePass_falls _)
      (fun s t (hst : Alike maxLine s t) => readlinePass_alike hst) h
  refine (loop_alike (readlinesPass_falls _) (readlinesPass_falls _) (fun s t hst => ?_) h).2
  obtain ⟨hst, hout⟩ := hline s t hst
  rw [readlinesPass, readlinesPass, readline, readline, ← hout]
  split
  · exact .stop [] hst
  · exact .again _ hst

def mute (f : Frame) : Frame := if f.kind = 2 then fill 0 f else fill newline f

theorem sameHeader_mute (f : Frame) : SameHeader f (mute f) := by
  rw [mute]
  split <;> exact sameHeader_fill _ f

theorem blank_mute (f : Frame) : Blank (withSink maxLine) (mute f) := by
  rw [mute]
  split
  next h => exact .inr ⟨⟨h, rfl⟩, fun hb => absurd (List.eq_of_mem_replicate hb) (by decide)⟩
  next => exact .inl (newlines_fill f)

theorem ticks_mute {cfg : Config} {f : Frame} (h : f.kind = 2) : ticks cfg (mute f) = 0 := by
  have hcount : (mute f).payload.count newline = 0 := by
    rw [mute, if_pos h]
    exact List.count_eq_zero_of_not_mem fun hb => absurd (List.eq_of_mem_replicate hb) (by decide)
  rw [ticks, hcount]
  split_ifs <;> rfl

theorem ticks_mute_le {cfg : Config} (f : Frame) :
    ticks cfg (mute f) ≤ ticks cfg (fill newline f) := by
  by_cases h : f.kind = 2
  · rw [ticks_mute h]
    exact Nat.zero_le _
  · rw [mute, if_neg h]

theorem chunkTicks_map (cfg : Config) (g : Frame → Frame) (c : Chunk) :
    chunkTicks cfg (c.map g) = (c.frames.map fun f => ticks cfg (g f)).sum := by
  rw [chunkTicks, Chunk.map, List.map_map]
  rfl

theorem heard_mute_lt (decode : Bytes → Str) {chunks : List Chunk} (h : ¬ Quiet maxLine chunks) :
    (heard decode maxLine (chunks.map (Chunk.map mute))).length <
      (heard decode maxLine (chunks.map (Chunk.map (fill newline)))).length := by
  rw [heard, heard, List.length_map, List.length_map]
  have hle := readlines_blank_le (withSink maxLine)
    (waiting_start (chunks.map (Chunk.map mute))) (by
      intro c hc f hf
      obtain ⟨c, -, rfl⟩ := List.mem_map.mp hc
      obtain ⟨f, -, rfl⟩ := List.mem_map.mp hf
      exact blank_mute f)
  obtain ⟨t, ht, -, heq⟩ := readlines_newlines (withSink maxLine)
    (chunks.map (Chunk.map (fill newline))) []
    (s := { sock := (chunks.map (Chunk.map (fill newline))).map Chunk.bytes })
    (by rw [List.append_nil]; exact waiting_start _) rfl (by
      intro c hc f hf
      obtain ⟨c, -, rfl⟩ := List.mem_map.mp hc
      obtain ⟨f, -, rfl⟩ := List.mem_map.mp hf
      exact newlines_fill f)
  have hsum : ((chunks.map (Chunk.map mute)).map (chunkTicks (withSink maxLine))).sum <
      ((chunks.map (Chunk.map (fill newline))).map (chunkTicks (withSink maxLine))).sum := by
    rw [List.map_map, List.map_map]
    apply List.sum_lt_sum
    · intro c _
      simp only [Function.comp_apply, chunkTicks_map]
      exact List.sum_le_sum fun f _ => ticks_mute_le f
    · simp only [Quiet, not_forall] at h
      obtain ⟨c, hc, f, hf, hkind, hover⟩ := h
      refine ⟨c, hc, ?_⟩
      simp only [Function.comp_apply, chunkTicks_map]
      refine List.sum_lt_sum _ _ (fun f _ => ticks_mute_le f) ⟨f, hf, ?_⟩
      have ho : (withSink maxLine).Over f.size := not_not.mp fun ho => hover (not_over_iff.mp ho)
      have hfill : (withSink maxLine).Over (fill newline f).size := by
        rwa [(sameHeader_fill newline f).2]
      have hsize := hfill.two_le
      rw [ticks_mute hkind, ticks_over (newlines_fill f) hfill]
      omega
  omega

theorem Chunkwise.map {R S : Frame → Frame → Prop} {g g' : Frame → Frame}
    (hRS : ∀ f f', R f f' → S (g f) (g' f')) {chunks chunks' : List Chunk}
    (h : Chunkwise R chunks chunks') :
    Chunkwise S (chunks.map (Chunk.map g)) (chunks'.map (Chunk.map g')) := by
  rw [Chunkwise, List.forall₂_map_left_iff, List.forall₂_map_right_iff]
  refine List.Forall₂.imp (fun c c' hc => ?_) h
  rw [Chunk.map, Chunk.map, List.forall₂_map_left_iff, List.forall₂_map_right_iff]
  exact List.Forall₂.imp (fun f f' => hRS f f') hc

theorem chunkwise_map {R : Frame → Frame → Prop} {g : Frame → Frame} (h : ∀ f, R f (g f))
    (chunks : List Chunk) : Chunkwise R chunks (chunks.map (Chunk.map g)) := by
  rw [Chunkwise, List.forall₂_map_right_iff, List.forall₂_same]
  intro c _
  rw [Chunk.map, List.forall₂_map_right_iff, List.forall₂_same]
  exact fun f _ => h f

theorem quiet_sameHeader {chunks cs : List Chunk} (h : Chunkwise SameHeader chunks cs)
    (hq : Quiet maxLine chunks) : Quiet maxLine cs := by
  have hframes {fs gs : List Frame} (h : List.Forall₂ SameHeader fs gs)
      (hq : ∀ f ∈ fs, f.kind = 2 → maxLine ≤ 0 ∨ f.size ≤ maxLine) :
      ∀ g ∈ gs, g.kind = 2 → maxLine ≤ 0 ∨ g.size ≤ maxLine := by
    induction h with
    | nil => exact hq
    | cons hfg _ ih =>
        rw [List.forall_mem_cons] at hq ⊢
        rw [hfg.1, hfg.2]
        exact ⟨hq.1, ih hq.2⟩
  rw [Quiet] at hq ⊢
  induction h with
  | nil => exact hq
  | cons hcd _ ih =>
      rw [List.forall_mem_cons] at hq ⊢
      exact ⟨hframes hcd hq.1, ih hq.2⟩

theorem chunkwise_mutes {cs ds : List Chunk} (h : Chunkwise Replaces cs ds)
    (hc : Quiet maxLine cs) (hd : Quiet maxLine ds) : Chunkwise (Mutes maxLine) cs ds := by
  have hframes {fs gs : List Frame} (h : List.Forall₂ Replaces fs gs)
      (hf : ∀ f ∈ fs, f.kind = 2 → maxLine ≤ 0 ∨ f.size ≤ maxLine)
      (hg : ∀ g ∈ gs, g.kind = 2 → maxLine ≤ 0 ∨ g.size ≤ maxLine) :
      List.Forall₂ (Mutes maxLine) fs gs := by
    induction h with
    | nil => exact .nil
    | cons hfg _ ih =>
        rw [List.forall_mem_cons] at hf hg
        refine .cons ⟨hfg, fun hkind => ⟨?_, ?_⟩⟩ (ih hf.2 hg.2)
        · exact not_over_iff.mpr (hf.1 hkind)
        · exact not_over_iff.mpr (hg.1 (hfg.1.trans hkind))
  rw [Quiet] at hc hd
  induction h with
  | nil => exact .nil
  | cons hcd _ ih =>
      rw [List.forall_mem_cons] at hc hd
      exact .cons (hframes hcd hc.1 hd.1) (ih hc.2 hd.2)

theorem replaces_fill {f g : Frame} (h : Replaces f g) :
    Replaces (fill newline f) (fill newline g) := by
  refine ⟨h.1, fun hne => ?_⟩
  have hpayload := h.2 hne
  simp only [fill, Frame.size, hpayload]

theorem replaces_mute_left {f g : Frame} (h : Replaces f g) :
    Replaces (mute f) (fill newline g) := by
  rw [mute]
  split
  next hkind => exact ⟨h.1, fun hne => absurd hkind hne⟩
  next => exact replaces_fill h

theorem replaces_mute_right {f g : Frame} (h : Replaces f g) :
    Replaces (fill newline f) (mute g) := by
  rw [mute]
  split
  next hkind => exact ⟨h.1, fun hne => absurd (h.1.symm.trans hkind) hne⟩
  next => exact replaces_fill h

/-- What is on stderr does not reach the lines exactly when no frame of it is
over the limit, before or after the replacement. -/
theorem unheard_iff (decode : Bytes → Str) {chunks chunks' : List Chunk}
    (h : Chunkwise Replaces chunks chunks') :
    Unheard decode maxLine chunks chunks' ↔ Quiet maxLine chunks ∧ Quiet maxLine chunks' := by
  constructor
  · intro hun
    constructor
    · by_contra hloud
      have hsame (g : Frame → Frame) (hg : ∀ f, SameHeader f (g f))
          (hr : ∀ f f', Replaces f f' → Replaces (g f) (fill newline f')) :=
        hun (chunks.map (Chunk.map g)) (chunks'.map (Chunk.map (fill newline)))
          (chunkwise_map hg chunks) (chunkwise_map (sameHeader_fill newline) chunks') (h.map hr)
      have hlt := heard_mute_lt decode hloud
      rw [hsame mute sameHeader_mute fun _ _ => replaces_mute_left,
        hsame (fill newline) (sameHeader_fill newline) fun _ _ => replaces_fill] at hlt
      exact Nat.lt_irrefl _ hlt
    · by_contra hloud
      have hsame (g : Frame → Frame) (hg : ∀ f, SameHeader f (g f))
          (hr : ∀ f f', Replaces f f' → Replaces (fill newline f) (g f')) :=
        hun (chunks.map (Chunk.map (fill newline))) (chunks'.map (Chunk.map g))
          (chunkwise_map (sameHeader_fill newline) chunks) (chunkwise_map hg chunks') (h.map hr)
      have hlt := heard_mute_lt decode hloud
      rw [← hsame mute sameHeader_mute fun _ _ => replaces_mute_right,
        ← hsame (fill newline) (sameHeader_fill newline) fun _ _ => replaces_fill] at hlt
      exact Nat.lt_irrefl _ hlt
  · rintro ⟨hq, hq'⟩ cs cs' hcs hcs' hr
    have hm := chunkwise_mutes hr (quiet_sameHeader hcs hq) (quiet_sameHeader hcs' hq')
    have ha : Alike maxLine { sock := cs.map Chunk.bytes } { sock := cs'.map Chunk.bytes } :=
      ⟨⟨rfl, rfl⟩, ⟨cs'.map Chunk.bytes, [], rfl⟩, cs, cs', rfl, rfl, hm⟩
    rw [heard, heard, readlines_alike ha]

end

def note : Frame := ⟨1, [97, newline], by decide⟩

def complaint (payload : Bytes) (h : payload.length < 2 ^ 32) : List Chunk :=
  [⟨[⟨2, payload, h⟩], by simp⟩, ⟨[note], by simp⟩]

theorem unheard_short :
    Unheard (fun _ => []) 2 (complaint [] (by decide)) (complaint [122] (by decide)) := by
  refine (unheard_iff _ ?_).mpr ⟨?_, ?_⟩
  · exact .cons (.cons ⟨rfl, fun h => absurd rfl h⟩ .nil) (.cons (.cons ⟨rfl, fun _ => rfl⟩ .nil) .nil)
  · simp [Quiet, complaint, note, Frame.size]
  · simp [Quiet, complaint, note, Frame.size]

/-- A stderr frame over the limit takes the next line of stdout with it. -/
theorem not_heard_same_oversize :
    ¬ ∀ (decode : Bytes → Str) (maxLine : Int) (chunks chunks' : List Chunk), 1 ≤ maxLine →
      Chunkwise Replaces chunks chunks' →
        heard decode maxLine chunks = heard decode maxLine chunks' := by
  intro h
  have hloud := h (fun _ => []) 2 (complaint [] (by decide)) (complaint [122, 122, 122] (by decide))
    (by decide)
    (.cons (.cons ⟨rfl, fun h => absurd rfl h⟩ .nil) (.cons (.cons ⟨rfl, fun _ => rfl⟩ .nil) .nil))
  have hquiet : (heard (fun _ => []) 2 (complaint [] (by decide))).length = 1 := rfl
  rw [hloud] at hquiet
  exact absurd hquiet (by decide)

end AgentWeb.StderrFrames
