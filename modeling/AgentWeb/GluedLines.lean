import AgentWeb.PyDecode
import AgentWeb.Segments

namespace AgentWeb.GluedLines

open PyText PyDecode Loops Demux Frames BlankLines CutLines Chunking Segments

def onStdout (payload : Bytes) (fits : payload.length < 2 ^ 32) : Frame := ⟨1, payload, fits⟩

/-- Each line that ends in a newline is a line of the text, and no piece of two
of them or of a dropped one. -/
def Genuine (cfg : Config) (frames : List Frame) (chunks : List Bytes) : Prop :=
  ∀ line ∈ (Chunking.read decode cfg chunks).1, line.getLast? = some 10 →
    line ∈ (segments (frames.flatMap Frame.payload)).map decode

/-- The frames are all on stdout, and their sizes are among the ones given. -/
def Sized (sizes : Set Nat) (frames : List Frame) : Prop :=
  ∀ f ∈ frames, f.kind = 1 ∧ f.size ∈ sizes

section

variable {cfg : Config}

theorem genuine_of_fits {frames : List Frame} (hkind : ∀ f ∈ frames, f.kind = 1)
    (hfit : ∀ f ∈ frames, ¬ cfg.Over f.size) {chunks : List Bytes}
    (h : Splits chunks (encodeAll frames)) : Genuine cfg frames chunks := by
  intro line hline _
  have hread := congrArg Prod.fst (readlines_whole hfit h).1
  simp only [outcome] at hread
  rw [stdout_of_kind hkind] at hread
  rw [Chunking.read, hread] at hline
  obtain ⟨bytes, hbytes, rfl⟩ := List.mem_map.mp hline
  exact List.mem_map_of_mem (List.mem_of_mem_filter hbytes)

/-- What comes behind the first newline of an oversize frame is put behind the
pending bytes, whatever these are. -/
theorem feed_over {s : DockerStream} {f : Frame} {u v : Bytes} (ho : cfg.Over f.size)
    (hb : Between s) (hd : s.discarding = false) (hu : newline ∉ u)
    (hpayload : f.payload = u ++ newline :: v) :
    feed cfg s f.encode =
      { s with pending := s.pending ++ v, oversizeLines := s.oversizeLines + 1 } := by
  have hafter : afterNewline f.payload = v := by rw [hpayload, afterNewline_line hu]
  have hmem : newline ∈ f.payload := by simp [hpayload]
  have hreceive : receive cfg s f = ({ s with oversizeLines := s.oversizeLines + 1 }, v) := by
    rw [receive, if_pos ho, noteOversize, if_neg (by simp [hd]), endOversize, if_pos ⟨rfl, hmem⟩,
      hafter, ← hd]
  have hfeed : feed cfg s (encodeAll [f]) = pend (receiveAll cfg s [f]) := feed_encodeAll hb [f]
  rw [encodeAll, List.flatMap_singleton] at hfeed
  rw [hfeed, receiveAll, receiveAll, hreceive, List.append_nil]
  rfl

theorem readlines_over {s : DockerStream} {f : Frame} {u v : Bytes} {sock : List Bytes}
    (ho : cfg.Over f.size) (hb : Between s) (hd : s.discarding = false)
    (hshort : s.pending.length ≤ 1) (hno : newline ∉ s.pending) (hsock : s.sock = f.encode :: sock)
    (hu : newline ∉ u) (hpayload : f.payload = u ++ newline :: v) :
    readlines cfg s = readlines cfg { s with
      sock := sock, pending := s.pending ++ v, oversizeLines := s.oversizeLines + 1 } := by
  have hdrop : dropPending cfg { s with sock := sock } = { s with sock := sock } := by
    rw [dropPending]
    exact if_neg fun h => absurd h.two_le (by simp only; omega)
  have hpass := readlinePass_recv cfg hno hsock (encode_ne_nil f)
  rw [hdrop, feed_over (s := { s with sock := sock }) ho ⟨hb.buf, hb.skipPayload⟩ hd hu hpayload]
    at hpass
  exact readlines_again hpass

def around (n : Nat) (v : Bytes) : Bytes := List.replicate (n - 1 - v.length) 120 ++ newline :: v

theorem around_length {n : Nat} {v : Bytes} (h : v.length < n) : (around n v).length = n := by
  rw [around, List.length_append, List.length_replicate, List.length_cons]
  omega

theorem newline_not_mem_replicate (n : Nat) : newline ∉ List.replicate n (120 : UInt8) := by
  intro h
  exact absurd (List.eq_of_mem_replicate h) (by decide)

/-- Three oversize frames: the first one leaves the start of a line, which the
second one goes on with, and the third one ends what is left of it. -/
def gluing (n : Nat) (h : 2 ≤ n) (hfits : n < 2 ^ 32) : List Frame :=
  [onStdout (around n [97]) (by rwa [around_length h]),
    onStdout (around n []) (by rwa [around_length (by rw [List.length_nil]; omega)]),
    onStdout (around n [newline]) (by rwa [around_length h])]

theorem gluing_sized {n : Nat} (h : 2 ≤ n) (hfits : n < 2 ^ 32) {sizes : Set Nat}
    (hn : n ∈ sizes) : Sized sizes (gluing n h hfits) := by
  have hsize : ∀ f ∈ gluing n h hfits, f.kind = 1 ∧ f.size = n := by
    intro f hf
    simp only [gluing, List.mem_cons, List.not_mem_nil, or_false] at hf
    rcases hf with rfl | rfl | rfl
    · exact ⟨rfl, around_length h⟩
    · exact ⟨rfl, around_length (by rw [List.length_nil]; omega)⟩
    · exact ⟨rfl, around_length h⟩
  intro f hf
  exact ⟨(hsize f hf).1, (hsize f hf).2 ▸ hn⟩

theorem gluing_segments {m : Nat} (h : 2 ≤ m + 2) (hfits : m + 2 < 2 ^ 32) :
    segments ((gluing (m + 2) h hfits).flatMap Frame.payload) =
      [List.replicate m 120 ++ [newline], 97 :: List.replicate (m + 1) 120 ++ [newline],
        List.replicate m 120 ++ [newline], [newline]] := by
  have hno := newline_not_mem_replicate
  have hflat : (gluing (m + 2) h hfits).flatMap Frame.payload =
      List.replicate m 120 ++ newline :: ((97 :: List.replicate (m + 1) 120) ++ newline ::
        (List.replicate m 120 ++ newline :: ([] ++ newline :: []))) := by
    simp [gluing, onStdout, around]
  have hlong : newline ∉ (97 : UInt8) :: List.replicate (m + 1) 120 :=
    List.not_mem_cons_of_ne_of_not_mem (by decide) (hno (m + 1))
  rw [hflat, segments_line (hno m), segments_line hlong, segments_line (hno m),
    segments_line List.not_mem_nil, segments_last List.not_mem_nil, if_pos rfl, List.nil_append]

theorem glued_not_mem (m : Nat) : ∀ line ∈ [List.replicate m 120 ++ [newline],
    97 :: List.replicate (m + 1) 120 ++ [newline], List.replicate m 120 ++ [newline], [newline]],
    Ascii line ∧ line ≠ [97, newline] := by
  have hx (k : Nat) : Ascii (List.replicate k 120) := fun b hb =>
    List.eq_of_mem_replicate hb ▸ by decide
  have hnew : Ascii [newline] := by decide
  have hfirst : Ascii (List.replicate m 120 ++ [newline]) ∧
      List.replicate m 120 ++ [newline] ≠ [97, newline] := by
    refine ⟨List.forall_mem_append.mpr ⟨hx m, hnew⟩, fun h => ?_⟩
    have hsame : List.replicate m 120 = [(97 : UInt8)] := List.append_cancel_right h
    have hmem : (97 : UInt8) ∈ List.replicate m 120 := hsame ▸ List.mem_cons_self
    exact absurd (List.eq_of_mem_replicate hmem) (by decide)
  have hsecond : Ascii (97 :: List.replicate (m + 1) 120 ++ [newline]) ∧
      97 :: List.replicate (m + 1) 120 ++ [newline] ≠ [97, newline] := by
    refine ⟨List.forall_mem_append.mpr ⟨List.forall_mem_cons.mpr ⟨by decide, hx (m + 1)⟩, hnew⟩,
      fun h => ?_⟩
    have hlen := congrArg List.length h
    simp at hlen
  rw [List.forall_mem_cons, List.forall_mem_cons, List.forall_mem_cons, List.forall_mem_singleton]
  exact ⟨hfirst, hsecond, hfirst, hnew, by decide⟩

theorem not_genuine_gluing {n : Nat} (h : 2 ≤ n) (hfits : n < 2 ^ 32) (ho : cfg.Over n) :
    ¬ Genuine cfg (gluing n h hfits) ((gluing n h hfits).map Frame.encode) := by
  obtain ⟨m, rfl⟩ : ∃ m, n = m + 2 := ⟨n - 2, by omega⟩
  have hno := newline_not_mem_replicate
  have hread : [97, newline] ∈
      (readlines cfg { sock := (gluing (m + 2) h hfits).map Frame.encode }).2 := by
    rw [readlines_over (v := [97]) (by rwa [Frame.size, onStdout, around_length h]) ⟨rfl, rfl⟩ rfl
      (by simp) (by simp) rfl (hno _) rfl]
    rw [readlines_over (v := []) (by rwa [Frame.size, onStdout, around_length (by simp)]) ⟨rfl, rfl⟩
      rfl (by simp) (by simp [newline]) rfl (hno _) rfl]
    rw [readlines_over (v := [newline]) (by rwa [Frame.size, onStdout, around_length h]) ⟨rfl, rfl⟩
      rfl (by simp) (by simp [newline]) rfl (hno _) rfl]
    have hshort (hl : cfg.Over [(97 : UInt8)].length) : False := absurd hl.two_le (by decide)
    rw [readlines_line (readlinePass_line (by simp) rfl hshort) (by simp)]
    exact List.mem_cons_self
  intro hgen
  obtain ⟨bytes, hbytes, heq⟩ := List.mem_map.mp
    (hgen (decode [97, newline]) (List.mem_map_of_mem hread) (by decide))
  rw [gluing_segments] at hbytes
  obtain ⟨hascii, hne⟩ := glued_not_mem m bytes hbytes
  rw [decode_ascii hascii, decode_ascii (by decide : Ascii [97, newline])] at heq
  exact hne (toNat_map_injective heq)

/-- Frames of these sizes give genuine lines only, whatever they hold and however
the socket cuts them, exactly when none of the sizes is over the limit. -/
theorem genuine_iff (cfg : Config) (sizes : Set Nat) :
    (∀ frames, Sized sizes frames → ∀ chunks, Splits chunks (encodeAll frames) →
      Genuine cfg frames chunks) ↔
      ∀ n ∈ sizes, n < 2 ^ 32 → cfg.maxLine ≤ 0 ∨ n ≤ cfg.maxLine := by
  constructor
  · intro h n hn hfits
    by_contra hover
    have ho : cfg.Over n := not_not.mp fun ho => hover (not_over_iff.mp ho)
    exact not_genuine_gluing ho.two_le hfits ho
      (h _ (gluing_sized ho.two_le hfits hn) _ (splits_encode _))
  · intro hfit frames hsized chunks hcut
    refine genuine_of_fits (fun f hf => (hsized f hf).1) (fun f hf => ?_) hcut
    exact not_over_iff.mpr (hfit f.size (hsized f hf).2 f.fits)

end

/-- Frames `a`, `xx` with a newline and `b` with a newline, where two bytes are
the limit: the reader is given `ab`. -/
theorem not_genuine_piece :
    ¬ ∀ (cfg : Config) (frames : List Frame), (∀ f ∈ frames, f.kind = 1) →
      ∀ chunks, Splits chunks (encodeAll frames) → Genuine cfg frames chunks := by
  intro h
  have hline := h ⟨2, true⟩ [⟨1, [97], by decide⟩, ⟨1, [120, 120, newline], by decide⟩,
    ⟨1, [98, newline], by decide⟩] (by decide) [[1, 0, 0, 0, 0, 0, 0, 1, 97],
      [1, 0, 0, 0, 0, 0, 0, 3, 120, 120, newline], [1, 0, 0, 0, 0, 0, 0, 2, 98, newline]]
    ⟨by decide, rfl⟩ [97, 98, 10] (by decide) rfl
  exact absurd hline (by decide)

end AgentWeb.GluedLines
