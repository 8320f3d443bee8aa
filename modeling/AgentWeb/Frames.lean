import AgentWeb.Demux
import Mathlib.Algebra.Ring.Nat

namespace AgentWeb.Frames

open Loops Demux

/-- A docker stream frame. The header has four bytes for the size. -/
structure Frame where
  kind : UInt8
  payload : Bytes
  fits : payload.length < 2 ^ 32

namespace Frame

def size (f : Frame) : Nat := f.payload.length

def sizeBytes (n : Nat) : Bytes :=
  [UInt8.ofNat (n / 2 ^ 24), UInt8.ofNat (n / 2 ^ 16), UInt8.ofNat (n / 2 ^ 8), UInt8.ofNat n]

def head (f : Frame) : Bytes := [f.kind, 0, 0, 0] ++ sizeBytes f.size

def encode (f : Frame) : Bytes := f.head ++ f.payload

def Stderr (cfg : Config) (f : Frame) : Prop := f.kind = 2 ∧ cfg.sink = true

instance (cfg : Config) (f : Frame) : Decidable (f.Stderr cfg) :=
  inferInstanceAs (Decidable (_ ∧ _))

end Frame

def SameHeader (f g : Frame) : Prop := g.kind = f.kind ∧ g.size = f.size

def encodeAll (frames : List Frame) : Bytes := frames.flatMap Frame.encode

def receive (cfg : Config) (s : DockerStream) (f : Frame) : DockerStream × Bytes :=
  if cfg.Over f.size then endOversize (noteOversize s) f.payload
  else if f.Stderr cfg then ({ s with sunk := s.sunk ++ [f.payload] }, [])
  else (s, f.payload)

def receiveAll (cfg : Config) (s : DockerStream) : List Frame → DockerStream × Bytes
  | [] => (s, [])
  | f :: frames =>
      let r := receive cfg s f
      let rs := receiveAll cfg r.1 frames
      (rs.1, r.2 ++ rs.2)

theorem fromBytes_sizeBytes {n : Nat} (h : n < 2 ^ 32) : fromBytes (Frame.sizeBytes n) = n := by
  simp only [fromBytes, Frame.sizeBytes, List.foldl_cons, List.foldl_nil, UInt8.toNat_ofNat']
  omega

theorem head_length (f : Frame) : f.head.length = header := rfl

theorem encode_length (f : Frame) : f.encode.length = header + f.size := by
  rw [Frame.encode, List.length_append, head_length, Frame.size]

theorem encodeAll_cons (f : Frame) (frames : List Frame) :
    encodeAll (f :: frames) = f.encode ++ encodeAll frames := rfl

theorem declaredSize_head (f : Frame) (rest : Bytes) : declaredSize (f.head ++ rest) = f.size :=
  fromBytes_sizeBytes f.fits

def holding (s : DockerStream) (buf : Bytes) (skip : Nat) : DockerStream :=
  { s with buf := buf, skipPayload := skip }

@[simp] theorem holding_buf (s : DockerStream) (buf : Bytes) (skip : Nat) :
    (holding s buf skip).buf = buf := rfl

@[simp] theorem holding_skipPayload (s : DockerStream) (buf : Bytes) (skip : Nat) :
    (holding s buf skip).skipPayload = skip := rfl

theorem noteOversize_holding (s : DockerStream) (buf : Bytes) (skip : Nat) :
    noteOversize (holding s buf skip) = holding (noteOversize s) buf skip := by
  have hd : (holding s buf skip).discarding = s.discarding := rfl
  rw [noteOversize, noteOversize, hd]
  split <;> rfl

theorem endOversize_holding (s : DockerStream) (buf : Bytes) (skip : Nat) (region : Bytes) :
    endOversize (holding s buf skip) region =
      (holding (endOversize s region).1 buf skip, (endOversize s region).2) := by
  have hd : (holding s buf skip).discarding = s.discarding := rfl
  rw [endOversize, endOversize, hd]
  split <;> rfl

theorem receive_holding (cfg : Config) (s : DockerStream) (buf : Bytes) (skip : Nat) (f : Frame) :
    receive cfg (holding s buf skip) f =
      (holding (receive cfg s f).1 buf skip, (receive cfg s f).2) := by
  rw [receive, receive]
  split_ifs
  · rw [noteOversize_holding, endOversize_holding]
  · rfl
  · rfl

theorem demux_holding (cfg : Config) (s : DockerStream) (buf chunk : Bytes) (skip : Nat) :
    demux cfg (holding s buf skip) chunk =
      loop (demuxPass cfg) (·.buf.length) (holding s (buf ++ chunk) skip) := rfl

section Passes

variable {cfg : Config} {s : DockerStream}

theorem demuxPass_over {f : Frame} (ho : cfg.Over f.size) (body : Bytes) :
    demuxPass cfg (holding s (f.head ++ body) 0) =
      .again (holding (noteOversize s) body f.size) [] := by
  have hlen : ¬ (f.head ++ body).length < header := by simp [head_length]
  have hsize := declaredSize_head f body
  rw [demuxPass]
  simp only [holding, ne_eq, not_true_eq_false, if_false, hlen, hsize, if_pos ho]
  exact congrArg (Pass.again · []) (noteOversize_holding s body f.size)

variable (cfg) in
theorem demuxPass_drop {region : Bytes} (hpos : region ≠ []) (rest : Bytes) :
    demuxPass cfg (holding s (region ++ rest) region.length) =
      .again (holding (endOversize s region).1 rest 0) (endOversize s region).2 := by
  have hdrop : dropPayload (holding s (region ++ rest) region.length) =
      (holding (endOversize s region).1 rest 0, (endOversize s region).2) := by
    have hmin : min region.length (region ++ rest).length = region.length := by simp
    simp only [dropPayload, holding, hmin, List.take_left, List.drop_left, Nat.sub_self]
    exact endOversize_holding s rest 0 region
  rw [demuxPass, if_pos (by simpa [holding] using hpos), hdrop, if_neg (by simp [holding])]

variable (cfg) in
theorem demuxPass_starve {region : Bytes} {skip : Nat} (hlt : region.length < skip) :
    demuxPass cfg (holding s region skip) =
      .stop (holding (endOversize s region).1 [] (skip - region.length))
        (endOversize s region).2 := by
  have hdrop : dropPayload (holding s region skip) =
      (holding (endOversize s region).1 [] (skip - region.length), (endOversize s region).2) := by
    have hmin : min skip region.length = region.length := by omega
    simp only [dropPayload, holding, hmin, List.take_length, List.drop_length]
    exact endOversize_holding s [] (skip - region.length) region
  rw [demuxPass, if_pos (by simp only [holding]; omega), hdrop,
    if_pos (by simp only [holding]; omega)]

theorem takeFrame_whole {f : Frame} (ho : ¬ cfg.Over f.size) (rest : Bytes) :
    takeFrame cfg (holding s (f.encode ++ rest) 0) f.size =
      (holding (receive cfg s f).1 rest 0, (receive cfg s f).2) := by
  have hkind : (f.encode ++ rest).headD 0 = f.kind := rfl
  have hpayload : ((f.encode ++ rest).drop header).take f.size = f.payload := by
    rw [Frame.encode, List.append_assoc]
    exact List.take_left
  have hrest : (f.encode ++ rest).drop (header + f.size) = rest := by
    rw [← encode_length, List.drop_left]
  simp only [takeFrame, holding_buf, hkind, hpayload, hrest, receive, if_neg ho]
  by_cases h : f.Stderr cfg
  · rw [if_pos h]
    exact if_pos h
  · rw [if_neg h]
    exact if_neg h

theorem demuxPass_whole {f : Frame} (ho : ¬ cfg.Over f.size) (rest : Bytes) :
    demuxPass cfg (holding s (f.encode ++ rest) 0) =
      .again (holding (receive cfg s f).1 rest 0) (receive cfg s f).2 := by
  have hlen : (f.encode ++ rest).length = header + f.size + rest.length := by
    rw [List.length_append, encode_length]
  have hsize : declaredSize (f.encode ++ rest) = f.size := by
    rw [Frame.encode, List.append_assoc, declaredSize_head]
  rw [demuxPass, if_neg (by simp), holding_buf, if_neg (by omega), hsize, if_neg ho,
    if_neg (by omega), takeFrame_whole ho]

theorem demuxLoop_empty : loop (demuxPass cfg) (·.buf.length) (holding s [] 0) = (holding s [] 0, []) :=
  loop_stop rfl

theorem demuxLoop_frame (f : Frame) (rest : Bytes) :
    loop (demuxPass cfg) (·.buf.length) (holding s (f.encode ++ rest) 0) =
      let r := receive cfg s f
      let l := loop (demuxPass cfg) (·.buf.length) (holding r.1 rest 0)
      (l.1, r.2 ++ l.2) := by
  have hf := demuxPass_falls cfg
  by_cases ho : cfg.Over f.size
  · have hpos : f.payload ≠ [] := by
      intro h
      rw [Frame.size, h] at ho
      exact not_over_zero cfg ho
    have hreceive : receive cfg s f = endOversize (noteOversize s) f.payload := if_pos ho
    rw [Frame.encode, List.append_assoc, loop_again hf (demuxPass_over ho _)]
    rw [Frame.size, loop_again hf (demuxPass_drop _ hpos rest), ← hreceive]
    rfl
  · exact loop_again hf (demuxPass_whole ho rest)

end Passes

theorem demux_encodeAll (cfg : Config) (s : DockerStream) (frames : List Frame) :
    demux cfg (holding s [] 0) (encodeAll frames) =
      (holding (receiveAll cfg s frames).1 [] 0, (receiveAll cfg s frames).2) := by
  rw [demux_holding, List.nil_append]
  induction frames generalizing s with
  | nil => exact demuxLoop_empty
  | cons f frames ih =>
      rw [encodeAll_cons, demuxLoop_frame]
      simp only [ih, receiveAll]

theorem encode_ne_nil (f : Frame) : f.encode ≠ [] := by
  intro h
  have hlen := encode_length f
  rw [h, List.length_nil, header] at hlen
  omega

structure Between (s : DockerStream) : Prop where
  buf : s.buf = []
  skipPayload : s.skipPayload = 0

theorem Between.holding_eq {s : DockerStream} (h : Between s) : holding s [] 0 = s := by
  rw [holding, ← h.buf, ← h.skipPayload]

theorem receive_between {cfg : Config} {s : DockerStream} (hs : Between s) (f : Frame) :
    Between (receive cfg s f).1 := by
  have h := congrArg Prod.fst (receive_holding cfg s [] 0 f)
  rw [hs.holding_eq] at h
  rw [h]
  exact ⟨rfl, rfl⟩

theorem receive_untouched (cfg : Config) (s : DockerStream) (f : Frame) :
    Untouched s (receive cfg s f).1 := by
  rw [receive]
  split_ifs
  · have hnote := noteOversize_same s
    have hend := endOversize_same (noteOversize s) f.payload
    exact ⟨hend.1.trans hnote.1, hend.2.2.1.trans hnote.2.2.1⟩
  · exact ⟨rfl, rfl⟩
  · exact ⟨rfl, rfl⟩

theorem receiveAll_between (cfg : Config) {s : DockerStream} (hs : Between s) (frames : List Frame) :
    Between (receiveAll cfg s frames).1 := by
  induction frames generalizing s with
  | nil => exact hs
  | cons f frames ih => exact ih (receive_between hs f)

theorem receiveAll_untouched (cfg : Config) (s : DockerStream) (frames : List Frame) :
    Untouched s (receiveAll cfg s frames).1 := by
  induction frames generalizing s with
  | nil => exact ⟨rfl, rfl⟩
  | cons f frames ih =>
      have hf := receive_untouched cfg s f
      have hr := ih (receive cfg s f).1
      exact ⟨hr.1.trans hf.1, hr.2.trans hf.2⟩

theorem feed_encodeAll {cfg : Config} {s : DockerStream} (hs : Between s) (frames : List Frame) :
    feed cfg s (encodeAll frames) = pend (receiveAll cfg s frames) := by
  have hd := demux_encodeAll cfg s frames
  rw [hs.holding_eq, (receiveAll_between _ hs frames).holding_eq] at hd
  rw [feed, hd]

structure Chunk where
  frames : List Frame
  nonempty : frames ≠ []

namespace Chunk

def bytes (c : Chunk) : Bytes := encodeAll c.frames

theorem bytes_ne_nil (c : Chunk) : c.bytes ≠ [] := by
  obtain ⟨f, frames, h⟩ := List.exists_cons_of_ne_nil c.nonempty
  rw [bytes, h, encodeAll_cons]
  exact fun h => encode_ne_nil f (List.append_eq_nil_iff.mp h).1

def map (g : Frame → Frame) (c : Chunk) : Chunk :=
  ⟨c.frames.map g, by simpa using c.nonempty⟩

end Chunk

end AgentWeb.Frames
