import AgentWeb.Frames

namespace AgentWeb.CutLines

open Loops Demux Frames

/-- The lines of a text and how many of them were over the limit, from what was
read of the current line, or from within one whose rest is dropped. -/
def cutLines (cfg : Config) : Bool → Bytes → Bytes → List Bytes × Nat
  | discarding, line, [] =>
      if discarding = true ∨ line = [] then ([], 0)
      else if cfg.Over line.length then ([], 1)
      else ([line], 0)
  | discarding, line, b :: text =>
      if b = newline then
        let r := cutLines cfg false [] text
        if discarding = true then r
        else if cfg.Over line.length then (r.1, r.2 + 1)
        else ((line ++ [newline]) :: r.1, r.2)
      else cutLines cfg discarding (if discarding then [] else line ++ [b]) text

def expected (cfg : Config) (s : DockerStream) (text : Bytes) : List Bytes × Nat :=
  let r := cutLines cfg s.discarding [] (s.pending ++ text)
  (r.1, s.oversizeLines + r.2)

def outcome (cfg : Config) (s : DockerStream) : List Bytes × Nat :=
  ((readlines cfg s).2, (readlines cfg s).1.oversizeLines)

def arrived : Nat → List Frame → List Frame
  | _, [] => []
  | n, f :: frames =>
      if f.encode.length ≤ n then f :: arrived (n - f.encode.length) frames else []

def stdout (cfg : Config) (frames : List Frame) : Bytes :=
  frames.flatMap fun f => if f.Stderr cfg then [] else f.payload

def stderr (cfg : Config) (frames : List Frame) : List Bytes :=
  (frames.filter fun f => f.Stderr cfg).map Frame.payload

section

variable {cfg : Config}

variable (cfg) in
theorem cutLines_read (line : Bytes) {bs : Bytes} (h : newline ∉ bs) (text : Bytes) :
    cutLines cfg false line (bs ++ text) = cutLines cfg false (line ++ bs) text := by
  induction bs generalizing line with
  | nil => rw [List.nil_append, List.append_nil]
  | cons b bs ih =>
      rw [List.mem_cons, not_or] at h
      obtain ⟨hb, hbs⟩ := h
      rw [List.cons_append, cutLines, if_neg (Ne.symm hb), if_neg (by simp), ih _ hbs,
        List.append_assoc, List.singleton_append]

variable (cfg) in
theorem cutLines_skip {bs : Bytes} (h : newline ∉ bs) (text : Bytes) :
    cutLines cfg true [] (bs ++ text) = cutLines cfg true [] text := by
  induction bs with
  | nil => rfl
  | cons b bs ih =>
      rw [List.mem_cons, not_or] at h
      obtain ⟨hb, hbs⟩ := h
      rw [List.cons_append, cutLines, if_neg (Ne.symm hb), if_pos rfl, ih hbs]

theorem cutLines_over {line : Bytes} (ho : cfg.Over line.length) (text : Bytes) :
    cutLines cfg false line text =
      ((cutLines cfg true [] text).1, (cutLines cfg true [] text).2 + 1) := by
  induction text generalizing line with
  | nil =>
      have hne : line ≠ [] := by
        rintro rfl
        exact not_over_zero cfg ho
      simp [cutLines, hne, ho]
  | cons b text ih =>
      rw [cutLines, cutLines]
      by_cases hb : b = newline
      · simp [hb, ho]
      · have hlong : cfg.Over (line ++ [b]).length := ho.mono (by simp)
        simpa [hb] using ih hlong

section NoNewline

variable {line : Bytes} (h : newline ∉ line)

include h

theorem ne_newline : ∀ b ∈ line, (b != newline) = true := by
  intro b hb
  exact bne_iff_ne.mpr fun he => h (he ▸ hb)

theorem beforeNewline_line (text : Bytes) : beforeNewline (line ++ newline :: text) = line := by
  rw [beforeNewline, List.takeWhile_append_of_pos (ne_newline h),
    List.takeWhile_cons_of_neg (by simp), List.append_nil]

theorem beforeNewline_last : beforeNewline line = line := by
  rw [beforeNewline, List.takeWhile_eq_self_iff]
  exact ne_newline h

theorem afterNewline_append_of_not_mem (text : Bytes) :
    afterNewline (line ++ text) = afterNewline text := by
  rw [afterNewline, afterNewline, List.dropWhile_append_of_pos (ne_newline h)]

theorem afterNewline_line (text : Bytes) : afterNewline (line ++ newline :: text) = text := by
  rw [afterNewline_append_of_not_mem h, afterNewline, List.dropWhile_cons_of_neg (by simp),
    List.tail_cons]

end NoNewline

theorem split_newline {bs : Bytes} (h : newline ∈ bs) :
    bs = beforeNewline bs ++ newline :: afterNewline bs ∧ newline ∉ beforeNewline bs := by
  have hsplit := List.takeWhile_append_dropWhile (p := (· != newline)) (l := bs)
  refine ⟨?_, fun hb => by simpa using List.mem_takeWhile_imp hb⟩
  cases hd : bs.dropWhile (· != newline) with
  | nil =>
      rw [List.dropWhile_eq_nil_iff] at hd
      exact absurd (hd newline h) (by simp)
  | cons b rest =>
      have hb := List.head_dropWhile_not (p := (· != newline)) (l := bs) (by simp [hd])
      simp only [hd, List.head_cons, bne_eq_false_iff_eq] at hb
      subst hb
      rw [beforeNewline, afterNewline, hd, List.tail_cons, ← hd, hsplit]

theorem afterNewline_append_of_mem {bs : Bytes} (h : newline ∈ bs) (text : Bytes) :
    afterNewline (bs ++ text) = afterNewline bs ++ text := by
  obtain ⟨hsplit, hno⟩ := split_newline h
  rw [hsplit, List.append_assoc, List.cons_append, afterNewline_line hno, afterNewline_line hno]

section Expected

variable {s : DockerStream} (text : Bytes)

theorem expected_newline (hn : newline ∈ s.pending) (hd : s.discarding = true) :
    expected cfg s text =
      expected cfg { s with pending := afterNewline s.pending, discarding := false } text := by
  obtain ⟨hp, hno⟩ := split_newline hn
  rw [expected, expected, hp, hd, List.append_assoc, cutLines_skip _ hno, List.cons_append, cutLines]
  simp [← hp]

variable (cfg) in
theorem expected_read (hn : newline ∈ s.pending) (hd : s.discarding = false) :
    expected cfg s text =
      let r := expected cfg { s with pending := afterNewline s.pending } text
      if cfg.Over (beforeNewline s.pending).length then (r.1, r.2 + 1)
      else ((beforeNewline s.pending ++ [newline]) :: r.1, r.2) := by
  obtain ⟨hp, hno⟩ := split_newline hn
  rw [expected, expected, hd]
  rw [show s.pending ++ text =
    beforeNewline s.pending ++ newline :: (afterNewline s.pending ++ text) by
      conv_lhs => rw [hp]
      simp]
  rw [cutLines_read _ _ hno, List.nil_append, cutLines]
  simp only [if_true, Bool.false_eq_true, if_false]
  split <;> rfl

variable (cfg) in
omit text in
theorem dropPending_pending (hn : newline ∉ s.pending) :
    newline ∉ (dropPending cfg s).pending ∧ ¬ cfg.Over (dropPending cfg s).pending.length := by
  rw [dropPending]
  split
  next =>
    rw [(noteOversize_same _).2.2.1]
    exact ⟨List.not_mem_nil, not_over_zero cfg⟩
  next ho => exact ⟨hn, ho⟩

theorem expected_dropPending (hn : newline ∉ s.pending) :
    expected cfg (dropPending cfg s) text = expected cfg s text := by
  rw [dropPending]
  split
  next ho =>
    rw [noteOversize]
    cases hd : s.discarding with
    | true => simp only [if_true, expected, hd, List.nil_append, cutLines_skip _ hn]
    | false =>
        simp only [Bool.false_eq_true, if_false, expected, hd, List.nil_append,
          cutLines_read _ [] hn, cutLines_over ho]
        rw [Nat.add_assoc, Nat.add_comm 1]
  next => rfl

theorem expected_end (hn : newline ∉ s.pending) (ho : ¬ cfg.Over s.pending.length) :
    expected cfg s [] = (if s.discarding = true ∨ s.pending = [] then [] else [s.pending],
      s.oversizeLines) := by
  rw [expected, List.append_nil]
  cases hd : s.discarding with
  | true =>
      have hskip := cutLines_skip cfg hn []
      rw [List.append_nil] at hskip
      simp [hskip, cutLines]
  | false =>
      have hread := cutLines_read cfg [] hn []
      rw [List.append_nil] at hread
      rw [hread, cutLines]
      by_cases hp : s.pending = [] <;> simp [hp, ho]

end Expected

theorem receive_fits {f : Frame} (h : ¬ cfg.Over f.size) (s : DockerStream) :
    receive cfg s f = ({ s with sunk := s.sunk ++ stderr cfg [f] }, stdout cfg [f]) := by
  rw [receive, if_neg h, stdout, List.flatMap_singleton, stderr]
  by_cases he : f.Stderr cfg
  · simp [he]
  · simp [he]

theorem stdout_append (frames frames' : List Frame) :
    stdout cfg (frames ++ frames') = stdout cfg frames ++ stdout cfg frames' :=
  List.flatMap_append

theorem stderr_append (frames frames' : List Frame) :
    stderr cfg (frames ++ frames') = stderr cfg frames ++ stderr cfg frames' := by
  rw [stderr, List.filter_append, List.map_append]
  rfl

theorem demuxPass_short {s : DockerStream} {f : Frame} {b x rest : Bytes}
    (h : b ++ x = f.encode ++ rest) (hlt : b.length < f.encode.length) (ho : ¬ cfg.Over f.size) :
    demuxPass cfg (holding s b 0) = .stop (holding s b 0) [] := by
  rw [encode_length] at hlt
  rw [demuxPass, if_neg (by simp), holding_buf]
  by_cases hshort : b.length < header
  · rw [if_pos hshort]
  · have hhead : f.head <+: b := by
      refine List.prefix_of_prefix_length_le (?_ : f.head <+: b ++ x) (List.prefix_append b x) ?_
      · rw [h, Frame.encode, List.append_assoc]
        exact List.prefix_append _ _
      · rw [head_length]
        omega
    obtain ⟨b', rfl⟩ := hhead
    rw [if_neg hshort, declaredSize_head, if_neg ho, if_pos hlt]

theorem demuxLoop_arrived {todo : List Frame} (hfit : ∀ f ∈ todo, ¬ cfg.Over f.size)
    {s : DockerStream} {b x : Bytes} (h : b ++ x = encodeAll todo) :
    ∃ b', loop (demuxPass cfg) (·.buf.length) (holding s b 0) =
        (holding { s with sunk := s.sunk ++ stderr cfg (arrived b.length todo) } b' 0,
          stdout cfg (arrived b.length todo)) ∧
      b' ++ x = encodeAll (todo.drop (arrived b.length todo).length) ∧
        arrived b'.length (todo.drop (arrived b.length todo).length) = [] := by
  induction todo generalizing s b with
  | nil =>
      obtain ⟨rfl, rfl⟩ := List.append_eq_nil_iff.mp h
      refine ⟨[], ?_, rfl, rfl⟩
      rw [demuxLoop_empty, arrived, stderr, List.filter_nil, List.map_nil, List.append_nil]
      rfl
  | cons f todo ih =>
      rw [List.forall_mem_cons] at hfit
      rw [encodeAll_cons] at h
      rw [arrived]
      split
      next hle =>
        obtain ⟨b, rfl⟩ : f.encode <+: b := by
          refine List.prefix_of_prefix_length_le (?_ : f.encode <+: b ++ x)
            (List.prefix_append b x) hle
          rw [h]
          exact List.prefix_append _ _
        rw [List.append_assoc, List.append_right_inj] at h
        obtain ⟨b', hloop, hrest, hnone⟩ :=
          ih hfit.2 (s := { s with sunk := s.sunk ++ stderr cfg [f] }) h
        rw [List.length_append, Nat.add_sub_cancel_left]
        refine ⟨b', ?_, hrest, hnone⟩
        rw [demuxLoop_frame, receive_fits hfit.1]
        simp only [hloop]
        rw [← stdout_append, List.append_assoc, ← stderr_append, List.singleton_append]
      next hlt =>
        refine ⟨b, ?_, h, ?_⟩
        · rw [loop_stop (demuxPass_short h (by omega) hfit.1), stderr, List.filter_nil,
            List.map_nil, List.append_nil]
          rfl
        · rw [List.length_nil, List.drop_zero, arrived, if_neg hlt]

theorem arrived_add (n m : Nat) (todo : List Frame) :
    arrived (n + m) todo = arrived n todo ++
      arrived (n + m - (encodeAll (arrived n todo)).length)
        (todo.drop (arrived n todo).length) := by
  induction todo generalizing n with
  | nil => rfl
  | cons f todo ih =>
      by_cases hle : f.encode.length ≤ n
      · have hn : n + m - f.encode.length = n - f.encode.length + m := by omega
        have hcons : arrived n (f :: todo) = f :: arrived (n - f.encode.length) todo := if_pos hle
        rw [arrived, if_pos (by omega), hn, ih, hcons, encodeAll_cons, List.length_append,
          List.length_cons, List.drop_succ_cons, List.cons_append, ← hn, Nat.sub_sub]
      · rw [show arrived n (f :: todo) = [] from if_neg hle]
        rfl

theorem encodeAll_arrived (n : Nat) (todo : List Frame) :
    encodeAll todo = encodeAll (arrived n todo) ++
      encodeAll (todo.drop (arrived n todo).length) := by
  induction todo generalizing n with
  | nil => rfl
  | cons f todo ih =>
      rw [arrived]
      split
      next => rw [encodeAll_cons, encodeAll_cons, List.length_cons, List.drop_succ_cons,
        List.append_assoc, ← ih]
      next => rfl

/-- A stream that has whole frames to come, the last of which the socket may cut
off, and none of them in its buffer yet. -/
structure Framed (cfg : Config) (s : DockerStream) (todo : List Frame) : Prop where
  skipPayload : s.skipPayload = 0
  bytes : s.buf ++ s.sock.flatten <+: encodeAll todo
  fits : ∀ f ∈ todo, ¬ cfg.Over f.size
  none : arrived s.buf.length todo = []
  sock : [] ∉ s.sock

theorem Framed.same {s t : DockerStream} {todo : List Frame} (hs : Framed cfg s todo)
    (hskip : t.skipPayload = s.skipPayload) (hbuf : t.buf = s.buf) (hsock : t.sock = s.sock) :
    Framed cfg t todo :=
  ⟨hskip.trans hs.skipPayload, by rw [hbuf, hsock]; exact hs.bytes, hs.fits,
    by rw [hbuf]; exact hs.none, by rw [hsock]; exact hs.sock⟩

def toCome (cfg : Config) (s : DockerStream) (todo : List Frame) : Bytes :=
  stdout cfg (arrived (s.buf.length + s.sock.flatten.length) todo)

def toSink (cfg : Config) (s : DockerStream) (todo : List Frame) : List Bytes :=
  s.sunk ++ stderr cfg (arrived (s.buf.length + s.sock.flatten.length) todo)

theorem feed_framed {s : DockerStream} {todo : List Frame} {chunk : Bytes} (hskip : s.skipPayload = 0)
    (hbytes : s.buf ++ (chunk ++ s.sock.flatten) <+: encodeAll todo)
    (hfit : ∀ f ∈ todo, ¬ cfg.Over f.size) (hsock : [] ∉ s.sock) :
    ∃ todo', Framed cfg (feed cfg s chunk) todo' ∧
      (feed cfg s chunk).pending ++ toCome cfg (feed cfg s chunk) todo' = s.pending ++
        stdout cfg (arrived (s.buf.length + (chunk ++ s.sock.flatten).length) todo) ∧
      (feed cfg s chunk).discarding = s.discarding ∧
      (feed cfg s chunk).oversizeLines = s.oversizeLines ∧
      toSink cfg (feed cfg s chunk) todo' = s.sunk ++
        stderr cfg (arrived (s.buf.length + (chunk ++ s.sock.flatten).length) todo) := by
  obtain ⟨missing, hm⟩ := hbytes
  have hb : (s.buf ++ chunk) ++ (s.sock.flatten ++ missing) = encodeAll todo := by
    rw [← hm]
    simp only [List.append_assoc]
  obtain ⟨b', hloop, hrest, hnone⟩ := demuxLoop_arrived hfit (s := s) hb
  have hfeed : feed cfg s chunk = pend (holding
      { s with sunk := s.sunk ++ stderr cfg (arrived (s.buf ++ chunk).length todo) } b' 0,
      stdout cfg (arrived (s.buf ++ chunk).length todo)) := by
    rw [feed, ← hloop, ← demux_holding, holding, ← hskip]
  have hlen : b'.length + s.sock.flatten.length = (s.buf ++ chunk).length + s.sock.flatten.length -
      (encodeAll (arrived (s.buf ++ chunk).length todo)).length := by
    have hall := congrArg List.length (encodeAll_arrived (s.buf ++ chunk).length todo)
    rw [← hb, ← hrest] at hall
    simp only [List.length_append] at hall ⊢
    omega
  rw [hfeed]
  have htotal : s.buf.length + (chunk ++ s.sock.flatten).length =
      (s.buf ++ chunk).length + s.sock.flatten.length := by
    simp only [List.length_append]
    omega
  refine ⟨todo.drop (arrived (s.buf ++ chunk).length todo).length, ⟨rfl, ⟨missing, ?_⟩, ?_, hnone,
    hsock⟩, ?_, rfl, rfl, ?_⟩
  · rw [← hrest]
    exact List.append_assoc _ _ _
  · exact fun f hf => hfit f (List.mem_of_mem_drop hf)
  · rw [htotal, arrived_add, stdout_append, ← hlen]
    simp only [toCome, pend, holding, List.append_assoc]
  · rw [htotal, arrived_add, stderr_append, ← hlen]
    simp only [toSink, pend, holding, List.append_assoc]

theorem toCome_end {s : DockerStream} {todo : List Frame} (hs : Framed cfg s todo)
    (hsock : s.sock = []) : toCome cfg s todo = [] := by
  rw [toCome, hsock, List.flatten_nil, List.length_nil, Nat.add_zero, hs.none]
  rfl

theorem toSink_end {s : DockerStream} {todo : List Frame} (hs : Framed cfg s todo)
    (hsock : s.sock = []) : toSink cfg s todo = s.sunk := by
  rw [toSink, hsock, List.flatten_nil, List.length_nil, Nat.add_zero, hs.none]
  exact List.append_nil _

variable (cfg) in
theorem dropPending_sunk (s : DockerStream) : (dropPending cfg s).sunk = s.sunk := by
  rw [dropPending, noteOversize]
  split_ifs <;> rfl

/-- A chunk from the socket, with an oversize line dropped first, moves no byte of
the text and no payload for the sink. -/
theorem recv_framed {s : DockerStream} {todo : List Frame} {chunk : Bytes} {sock : List Bytes}
    (hs : Framed cfg s todo) (hsock : s.sock = chunk :: sock) :
    let d := dropPending cfg { s with sock := sock }
    ∃ todo', Framed cfg (feed cfg d chunk) todo' ∧
      (feed cfg d chunk).pending ++ toCome cfg (feed cfg d chunk) todo' =
        d.pending ++ toCome cfg s todo ∧
      (feed cfg d chunk).discarding = d.discarding ∧
      (feed cfg d chunk).oversizeLines = d.oversizeLines ∧
      toSink cfg (feed cfg d chunk) todo' = toSink cfg s todo := by
  obtain ⟨hrest, hbuf, hskip⟩ := dropPending_untouched cfg { s with sock := sock }
  have hbytes := hs.bytes
  rw [hsock, List.flatten_cons] at hbytes
  have hcut : (dropPending cfg { s with sock := sock }).buf ++
      (chunk ++ (dropPending cfg { s with sock := sock }).sock.flatten) <+: encodeAll todo := by
    rwa [hrest, hbuf]
  obtain ⟨todo', hframed, htext, hdisc, hover, hsink⟩ :=
    feed_framed (hskip.trans hs.skipPayload) hcut hs.fits
      (by rw [hrest]; exact fun h => hs.sock (by simp [hsock, h]))
  rw [hrest, hbuf] at htext hsink
  rw [dropPending_sunk] at hsink
  refine ⟨todo', hframed, ?_, hdisc, hover, ?_⟩
  · rw [htext, toCome, hsock, List.flatten_cons]
  · rw [hsink, toSink, hsock, List.flatten_cons]

/-- A reader of frames within the limit gets the lines of their text and the sink
the rest, however the socket has cut them. -/
theorem readlines_framed {s : DockerStream} {todo : List Frame} (hs : Framed cfg s todo) :
    outcome cfg s = expected cfg s (toCome cfg s todo) ∧
      (readlines cfg s).1.sunk = toSink cfg s todo := by
  induction hn : rank s using Nat.strongRecOn generalizing s todo with
  | ind n ih =>
      have hrank := readlinePass_rank cfg s
      by_cases hnl : newline ∈ s.pending
      · cases hd : s.discarding with
        | true =>
            have hpass := readlinePass_newline cfg hnl hd
            rw [expected_newline _ hnl hd, outcome, readlines_again hpass]
            have hlt := hrank.2 _ _ hpass
            exact ih _ (by omega) (hs.same rfl rfl rfl) rfl
        | false =>
            have hread := expected_read cfg (toCome cfg s todo) hnl hd
            by_cases ho : cfg.Over (beforeNewline s.pending).length
            · have hpass := readlinePass_over hnl hd ho
              have hlt := hrank.2 _ _ hpass
              rw [outcome, readlines_again hpass]
              obtain ⟨hrest, hsunk⟩ := ih _ (by omega) (hs.same (t := { s with
                pending := afterNewline s.pending, oversizeLines := s.oversizeLines + 1 })
                rfl rfl rfl) rfl
              rw [outcome] at hrest
              refine ⟨?_, hsunk⟩
              rw [hrest, hread, if_pos ho]
              simp only [expected, toCome]
              rw [Nat.add_right_comm]
            · have hpass := readlinePass_line hnl hd ho
              have hle := hrank.1
              simp only [hpass, Pass.state, Pass.out, List.length_append, List.length_singleton] at hle
              obtain ⟨hrest, hsunk⟩ := ih _ (by omega)
                (hs.same (t := { s with pending := afterNewline s.pending }) rfl rfl rfl) rfl
              rw [outcome, Prod.mk.injEq] at hrest
              rw [outcome, readlines_line hpass (by simp), hread, if_neg ho]
              refine ⟨?_, hsunk⟩
              simp only [hrest]
              rfl
      · cases hsock : s.sock with
        | nil =>
            have hpass := readlinePass_end cfg hnl (by rw [hsock]; rfl)
            obtain ⟨hnl', ho'⟩ := dropPending_pending cfg hnl
            have hsunk := dropPending_sunk cfg s
            rw [toCome_end hs hsock, toSink_end hs hsock, ← expected_dropPending _ hnl,
              expected_end hnl' ho', outcome, ← hsunk]
            generalize dropPending cfg s = d at hpass
            by_cases hline : d.discarding = true ∨ d.pending = []
            · have hnil : (if d.discarding then [] else d.pending) = [] := by
                rcases hline with h | h <;> simp [h]
              rw [hnil] at hpass
              rw [readlines_end hpass, if_pos hline]
              exact ⟨rfl, rfl⟩
            · rw [if_neg hline]
              rw [not_or] at hline
              rw [if_neg hline.1] at hpass
              obtain ⟨hlines, hcount, hlast⟩ := readlines_ended cfg
                (s := { d with sock := s.sock.tail, closed := true, pending := [] }) rfl
                (by rw [hsock]; rfl)
              rw [readlines_line hpass hline.2, hlines, hcount, hlast]
              exact ⟨rfl, rfl⟩
        | cons chunk sock =>
            have hchunk : chunk ≠ [] := fun h => hs.sock (by simp [hsock, h])
            have hpass := readlinePass_recv cfg hnl hsock hchunk
            have hlt := hrank.2 _ _ hpass
            obtain ⟨todo', hframed, htext, hdisc, hover, hto⟩ := recv_framed hs hsock
            obtain ⟨hrest, hsunk⟩ := ih _ (hn ▸ hlt) hframed rfl
            have hexp : expected cfg (dropPending cfg { s with sock := sock }) (toCome cfg s todo) =
              expected cfg { s with sock := sock } (toCome cfg s todo) := expected_dropPending _ hnl
            rw [outcome] at hrest
            rw [outcome, readlines_again hpass, hrest, hsunk, hto, expected, htext, hdisc, hover]
            exact ⟨hexp, rfl⟩

theorem outcome_framed {s : DockerStream} {todo : List Frame} (hs : Framed cfg s todo) :
    outcome cfg s = expected cfg s (toCome cfg s todo) :=
  (readlines_framed hs).1

end

end AgentWeb.CutLines
