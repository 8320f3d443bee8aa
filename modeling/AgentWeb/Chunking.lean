import AgentWeb.BlankLines
import AgentWeb.CutLines
import AgentWeb.PyText
import Mathlib.Tactic.TFAE

namespace AgentWeb.Chunking

open PyText Loops Demux Frames BlankLines CutLines

def Splits (chunks : List Bytes) (bytes : Bytes) : Prop := [] ∉ chunks ∧ chunks.flatten = bytes

def read (decode : Bytes → Str) (cfg : Config) (chunks : List Bytes) : List Str × Nat :=
  let r := readlines cfg { sock := chunks }
  (r.2.map decode, r.1.oversizeLines)

/-- What is read does not depend on how the socket cuts the bytes. -/
def CutFree (decode : Bytes → Str) (cfg : Config) (bytes : Bytes) : Prop :=
  ∀ chunks chunks', Splits chunks bytes → Splits chunks' bytes →
    read decode cfg chunks = read decode cfg chunks'

def SameHeaders (frames gs : List Frame) : Prop := List.Forall₂ SameHeader frames gs

section

variable {cfg : Config}

theorem cutFree_of_fits (decode : Bytes → Str) {frames : List Frame} {bytes : Bytes}
    (hfit : ∀ f ∈ frames, ¬ cfg.Over f.size) (hpre : bytes <+: encodeAll frames) :
    CutFree decode cfg bytes := by
  have hread (chunks : List Bytes) (h : Splits chunks bytes) :
      read decode cfg chunks =
        let r := expected cfg { sock := [] } (stdout cfg (arrived bytes.length frames))
        (r.1.map decode, r.2) := by
    have hframed : Framed cfg { sock := chunks } frames := by
      refine ⟨rfl, ?_, hfit, ?_, h.1⟩
      · rw [← h.2] at hpre
        exact hpre
      · cases frames with
        | nil => rfl
        | cons f frames =>
            have hlen := encode_length f
            rw [header] at hlen
            exact if_neg (by simp only [List.length_nil]; omega)
    have hout := outcome_framed hframed
    rw [outcome, toCome, h.2, List.length_nil, Nat.zero_add, Prod.mk.injEq] at hout
    rw [read, hout.1, hout.2]
    rfl
  intro chunks chunks' h h'
  rw [hread chunks h, hread chunks' h']

theorem fits_sameHeaders {frames gs : List Frame} (h : SameHeaders frames gs)
    (hfit : ∀ f ∈ frames, ¬ cfg.Over f.size) : ∀ g ∈ gs, ¬ cfg.Over g.size := by
  induction h with
  | nil => exact hfit
  | cons hfg _ ih =>
      rw [List.forall_mem_cons] at hfit ⊢
      rw [hfg.2]
      exact ⟨hfit.1, ih hfit.2⟩

def single (f : Frame) : Chunk := ⟨[f], by simp⟩

theorem single_bytes (f : Frame) : (single f).bytes = f.encode := List.append_nil _

theorem feed_first {s : DockerStream} {f : Frame} (ho : cfg.Over f.size) (hb : Between s) :
    feed cfg s (f.head ++ [newline]) =
      pend (holding { noteOversize s with discarding := false } [] (f.size - 1), []) := by
  have hlong : [newline].length < f.size := by
    have hsize := ho.two_le
    rw [List.length_singleton]
    omega
  have hend : endOversize (noteOversize s) [newline] =
      ({ noteOversize s with discarding := false }, []) :=
    if_pos ⟨noteOversize_discarding s, List.mem_singleton.mpr rfl⟩
  have hstop := demuxPass_starve cfg (s := noteOversize s) hlong
  rw [hend] at hstop
  rw [feed, ← hb.holding_eq, demux_holding, List.nil_append,
    loop_again (demuxPass_falls cfg) (demuxPass_over ho [newline]), loop_stop hstop, hb.holding_eq]
  rfl

theorem feed_rest {s : DockerStream} {n : Nat} (hn : n ≠ 0) (hd : s.discarding = false) :
    feed cfg (holding s [] n) (List.replicate n newline) = pend (holding s [] 0, []) := by
  have hend : endOversize s (List.replicate n newline) = (s, []) :=
    if_neg fun h => by simp [hd] at h
  have hdrop := demuxPass_drop cfg (s := s)
    (show List.replicate n newline ≠ [] by simpa using hn) []
  rw [hend, List.append_nil, List.length_replicate] at hdrop
  rw [feed, demux_holding, List.nil_append, loop_again (demuxPass_falls cfg) hdrop, demuxLoop_empty]
  rfl

theorem readlines_cut {s : DockerStream} {f : Frame} (sock : List Bytes) (ho : cfg.Over f.size)
    (hw : Waiting s 0 ((f.head ++ [newline]) :: List.replicate (f.size - 1) newline :: sock)) :
    ∃ t, Waiting t 0 sock ∧ t.discarding = false ∧ readlines cfg s = readlines cfg t := by
  have hsize := ho.two_le
  have hfirst := readlines_recv cfg hw.pending hw.sock (by simp)
  rw [feed_first (s := { s with sock := List.replicate (f.size - 1) newline :: sock }) ho
    ⟨hw.between.buf, hw.between.skipPayload⟩] at hfirst
  have hnote := noteOversize_same { s with sock := List.replicate (f.size - 1) newline :: sock }
  generalize noteOversize { s with sock := List.replicate (f.size - 1) newline :: sock } = u
    at hfirst hnote
  have hpending : u.pending = [] := hnote.2.2.1.trans hw.pending
  have hrest := readlines_recv cfg
    (s := pend (holding { u with discarding := false } [] (f.size - 1), []))
    (by rw [pend, holding, hpending]; rfl) hnote.1 (by simp; omega)
  have hstate : { pend (holding { u with discarding := false } [] (f.size - 1), []) with
      sock := sock } = holding { u with discarding := false, sock := sock } [] (f.size - 1) := by
    simp only [pend, holding, hpending, List.append_nil]
  rw [hstate, feed_rest (by omega) rfl] at hrest
  refine ⟨_, ⟨⟨rfl, rfl⟩, ?_, rfl⟩, rfl, hfirst.trans hrest⟩
  rw [pend, holding, hpending]
  rfl

variable (cfg) in
theorem readlines_singles (gs : List Frame) {s : DockerStream} (sock : List Bytes)
    (hw : Waiting s 0 (gs.map Frame.encode ++ sock)) (hd : s.discarding = false)
    (hnew : ∀ g ∈ gs, Newlines g) :
    ∃ t, Waiting t 0 sock ∧ t.discarding = false ∧ (readlines cfg s).2.length =
      (gs.map (ticks cfg)).sum + (readlines cfg t).2.length := by
  have hbytes : (gs.map single).map Chunk.bytes = gs.map Frame.encode := by
    rw [List.map_map]
    exact List.map_congr_left fun g _ => single_bytes g
  have hticks : (gs.map single).map (chunkTicks cfg) = gs.map (ticks cfg) := by
    rw [List.map_map]
    exact List.map_congr_left fun g _ => List.sum_singleton
  rw [← hbytes] at hw
  obtain ⟨t, ht, htd, hlen⟩ := readlines_newlines cfg _ _ hw hd (by
    intro c hc g hg
    obtain ⟨g', hg', rfl⟩ := List.mem_map.mp hc
    rw [List.mem_singleton.mp hg]
    exact hnew g' hg')
  exact ⟨t, ht, htd, hticks ▸ hlen⟩

theorem splits_encode (gs : List Frame) : Splits (gs.map Frame.encode) (encodeAll gs) := by
  refine ⟨fun h => ?_, rfl⟩
  obtain ⟨g, -, hg⟩ := List.mem_map.mp h
  exact encode_ne_nil g hg

theorem waiting_sock (sock : List Bytes) : Waiting { sock := sock } 0 sock :=
  ⟨⟨rfl, rfl⟩, rfl, rfl⟩

theorem splits_cut {pre post : List Frame} {g : Frame} (hnew : Newlines g) (hsize : 2 ≤ g.size) :
    Splits (pre.map Frame.encode ++ (g.head ++ [newline]) ::
      List.replicate (g.size - 1) newline :: post.map Frame.encode)
      (encodeAll (pre ++ g :: post)) := by
  have hpayload : g.payload = newline :: List.replicate (g.size - 1) newline := by
    rw [← List.replicate_succ, Nat.sub_add_cancel (by omega)]
    exact hnew.eq_replicate
  constructor
  · rw [List.mem_append, List.mem_cons, List.mem_cons, not_or, not_or, not_or]
    refine ⟨(splits_encode pre).1, by simp, fun h => ?_, (splits_encode post).1⟩
    have hlen := congrArg List.length h
    rw [List.length_nil, List.length_replicate] at hlen
    omega
  · rw [List.flatten_append, (splits_encode pre).2, List.flatten_cons, List.flatten_cons,
      (splits_encode post).2, encodeAll, encodeAll, encodeAll, List.flatMap_append,
      List.flatMap_cons, Frame.encode, hpayload]
    simp only [List.append_assoc, List.cons_append, List.nil_append]

theorem not_cutFree_over (decode : Bytes → Str) {pre post : List Frame} {g : Frame}
    (hpre : ∀ f ∈ pre, Newlines f) (hg : Newlines g) (hpost : ∀ f ∈ post, Newlines f)
    (ho : cfg.Over g.size) : ¬ CutFree decode cfg (encodeAll (pre ++ g :: post)) := by
  intro h
  have hsize := ho.two_le
  have hticks := ticks_over hg ho
  obtain ⟨t, ht, -, hwhole⟩ := readlines_singles cfg (pre ++ g :: post) []
    (by rw [List.append_nil]; exact waiting_sock _) rfl (by
      intro f hf
      rcases List.mem_append.mp hf with hf | hf
      · exact hpre f hf
      · rcases List.mem_cons.mp hf with rfl | hf
        · exact hg
        · exact hpost f hf)
  obtain ⟨u, hu, hud, hfirst⟩ := readlines_singles cfg pre _ (waiting_sock _) rfl hpre
  obtain ⟨v, hv, hvd, hcut⟩ := readlines_cut (post.map Frame.encode) ho hu
  obtain ⟨w, hw, -, hlast⟩ := readlines_singles cfg post []
    (by rw [List.append_nil]; exact hv) hvd hpost
  have hsame := congrArg (fun r => r.1.length) (h _ _ (splits_encode _) (splits_cut hg hsize))
  simp only [read, List.length_map] at hsame
  rw [(readlines_ended _ ht.pending ht.sock).1] at hwhole
  rw [(readlines_ended _ hw.pending hw.sock).1] at hlast
  rw [hwhole, hfirst, hcut, hlast, List.map_append, List.sum_append, List.map_cons, List.sum_cons,
    List.length_nil] at hsame
  omega

/-- What is read does not depend on how the socket cuts the bytes exactly when
no frame is over the limit, and then it may also cut the last one off. -/
theorem cutFree_tfae (decode : Bytes → Str) (cfg : Config) (frames : List Frame) :
    List.TFAE [
      ∀ f ∈ frames, cfg.maxLine ≤ 0 ∨ f.size ≤ cfg.maxLine,
      ∀ gs, SameHeaders frames gs → ∀ bytes, bytes <+: encodeAll gs → CutFree decode cfg bytes,
      ∀ gs, SameHeaders frames gs → CutFree decode cfg (encodeAll gs)] := by
  tfae_have 1 → 2 := by
    intro hfit gs hgs bytes hpre
    exact cutFree_of_fits decode
      (fits_sameHeaders hgs fun f hf => not_over_iff.mpr (hfit f hf)) hpre
  tfae_have 2 → 3 := fun h gs hgs => h gs hgs _ List.prefix_rfl
  tfae_have 3 → 1 := by
    intro h f hf
    by_contra hover
    have ho : cfg.Over f.size := not_not.mp fun ho => hover (not_over_iff.mp ho)
    have hnew (fs : List Frame) : ∀ g ∈ fs.map (fill newline), Newlines g := by
      intro g hg
      obtain ⟨g, -, rfl⟩ := List.mem_map.mp hg
      exact newlines_fill g
    obtain ⟨pre, post, rfl⟩ := List.append_of_mem hf
    have hcut := h ((pre ++ f :: post).map (fill newline)) (by
      rw [SameHeaders, List.forall₂_map_right_iff, List.forall₂_same]
      exact fun g _ => sameHeader_fill newline g)
    rw [List.map_append, List.map_cons] at hcut
    refine not_cutFree_over decode (hnew pre) (newlines_fill f) (hnew post) ?_ hcut
    rwa [(sameHeader_fill newline f).2]
  tfae_finish

end

/-- Two newlines in one frame, and a limit of one byte. -/
theorem not_cutFree_newlines :
    ¬ ∀ (decode : Bytes → Str) (cfg : Config) (frames : List Frame),
      CutFree decode cfg (encodeAll frames) := by
  intro h
  have hread := h (fun _ => []) ⟨1, false⟩ [⟨1, [newline, newline], by decide⟩]
    [[1, 0, 0, 0, 0, 0, 0, 2, newline, newline]]
    [[1, 0, 0, 0, 0, 0, 0, 2, newline], [newline]] ⟨by decide, rfl⟩ ⟨by decide, rfl⟩
  exact absurd hread (by decide)

end AgentWeb.Chunking
