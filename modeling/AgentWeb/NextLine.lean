import AgentWeb.Segments

namespace AgentWeb.NextLine

open Loops Demux Frames CutLines Segments

/-- The lines that a stream has yet to give when `more` comes behind what is
pending, and how many of them it has missed before the first one. -/
def left (cfg : Config) (s : DockerStream) (more : Bytes) : List Bytes × Nat :=
  let text := s.pending ++ more
  let lines := segments (if s.discarding then afterNewline text else text)
  (lines.dropWhile fun l => Long cfg l, s.oversizeLines + (lines.takeWhile fun l => Long cfg l).length)

section

variable {cfg : Config}

theorem segments_over {line : Bytes} (h : newline ∉ line) (ho : cfg.Over line.length) (text : Bytes) :
    ∃ first, Long cfg first ∧ segments (line ++ text) = first :: segments (afterNewline text) := by
  have hne : line ≠ [] := by
    rintro rfl
    exact not_over_zero cfg ho
  by_cases hn : newline ∈ text
  · obtain ⟨hsplit, hno⟩ := split_newline hn
    have hboth : newline ∉ line ++ beforeNewline text := by
      rw [List.mem_append, not_or]
      exact ⟨h, hno⟩
    refine ⟨line ++ beforeNewline text ++ [newline], ?_, ?_⟩
    · rw [Long, beforeNewline_line hboth]
      exact ho.mono (by simp)
    · rw [← segments_line hboth, List.append_assoc, ← hsplit]
  · have hboth : newline ∉ line ++ text := by
      rw [List.mem_append, not_or]
      exact ⟨h, hn⟩
    have hafter := afterNewline_append_of_not_mem hn []
    rw [List.append_nil] at hafter
    refine ⟨line ++ text, ?_, ?_⟩
    · rw [Long, beforeNewline_last hboth]
      exact ho.mono (by simp)
    · rw [segments_last hboth, if_neg (by simp [hne]), hafter]
      rfl

variable (cfg) in
theorem left_newline {s : DockerStream} (hn : newline ∈ s.pending) (hd : s.discarding = true)
    (more : Bytes) : left cfg s more =
      left cfg { s with pending := afterNewline s.pending, discarding := false } more := by
  simp only [left, hd, if_true, afterNewline_append_of_mem hn]
  rfl

theorem left_read {s : DockerStream} (hn : newline ∈ s.pending) (more : Bytes) : 
    segments (s.pending ++ more) =
      (beforeNewline s.pending ++ [newline]) :: segments (afterNewline s.pending ++ more) ∧
        newline ∉ beforeNewline s.pending := by
  obtain ⟨hsplit, hno⟩ := split_newline hn
  refine ⟨?_, hno⟩
  rw [← segments_line hno, ← List.cons_append, ← List.append_assoc, ← hsplit]

theorem left_over {s : DockerStream} (hn : newline ∈ s.pending) (hd : s.discarding = false)
    (ho : cfg.Over (beforeNewline s.pending).length) (more : Bytes) : left cfg s more = left cfg
      { s with pending := afterNewline s.pending, oversizeLines := s.oversizeLines + 1 } more := by
  obtain ⟨hread, hno⟩ := left_read hn more
  have hlong : Long cfg (beforeNewline s.pending ++ [newline]) := by rwa [Long, beforeNewline_line hno]
  simp [left, hd, hread, hlong, Nat.add_assoc, Nat.add_comm 1]

theorem left_line {s : DockerStream} (hn : newline ∈ s.pending) (hd : s.discarding = false)
    (ho : ¬ cfg.Over (beforeNewline s.pending).length) (more : Bytes) : left cfg s more =
      ((beforeNewline s.pending ++ [newline]) :: segments (afterNewline s.pending ++ more),
        s.oversizeLines) := by
  obtain ⟨hread, hno⟩ := left_read hn more
  have hlong : ¬ Long cfg (beforeNewline s.pending ++ [newline]) := by
    rwa [Long, beforeNewline_line hno]
  simp [left, hd, hread, hlong]

theorem left_dropPending {s : DockerStream} (hn : newline ∉ s.pending) (more : Bytes) :
    left cfg (dropPending cfg s) more = left cfg s more := by
  rw [dropPending]
  split
  next ho =>
    rw [noteOversize]
    cases hd : s.discarding with
    | true => simp [left, hd, afterNewline_append_of_not_mem hn]
    | false =>
        obtain ⟨first, hlong, hsegments⟩ := segments_over hn ho more
        simp [left, hd, hsegments, hlong, Nat.add_assoc, Nat.add_comm 1]
  next => rfl

theorem left_end {s : DockerStream} (hn : newline ∉ s.pending) (ho : ¬ cfg.Over s.pending.length) :
    left cfg s [] = (if s.discarding = true ∨ s.pending = [] then [] else [s.pending],
      s.oversizeLines) := by
  have hlast := segments_last hn
  cases hd : s.discarding with
  | true =>
      have hafter := afterNewline_append_of_not_mem hn []
      rw [left, hd, if_pos rfl, hafter]
      simp [afterNewline]
  | false =>
      have hlong : ¬ Long cfg s.pending := by rwa [Long, beforeNewline_last hn]
      by_cases hp : s.pending = [] <;> simp [left, hd, hlast, hp, hlong]

def Goes (cfg : Config) (t : DockerStream) (rest : List Bytes) : Prop :=
  ∃ todo, Framed cfg t todo ∧ t.discarding = false ∧
    segments (t.pending ++ toCome cfg t todo) = rest

theorem readline_framed {s : DockerStream} {todo : List Frame} (hs : Framed cfg s todo) :
    let r := left cfg s (toCome cfg s todo)
    (readline cfg s).2 = r.1.headD [] ∧ (readline cfg s).1.oversizeLines = r.2 ∧
      (r.1 ≠ [] → Goes cfg (readline cfg s).1 r.1.tail) := by
  have hfalls := readlinePass_falls cfg
  induction hn : rank s using Nat.strongRecOn generalizing s todo with
  | ind n ih =>
      have hrank := (readlinePass_rank cfg s).2
      by_cases hnl : newline ∈ s.pending
      · cases hd : s.discarding with
        | true =>
            have hpass := readlinePass_newline cfg hnl hd
            have hlt := hrank _ _ hpass
            rw [left_newline cfg hnl hd, readline, loop_again hfalls hpass, List.nil_append]
            exact ih _ (by omega) (hs.same rfl rfl rfl) rfl
        | false =>
            by_cases ho : cfg.Over (beforeNewline s.pending).length
            · have hpass := readlinePass_over hnl hd ho
              have hlt := hrank _ _ hpass
              rw [left_over hnl hd ho, readline, loop_again hfalls hpass, List.nil_append]
              exact ih _ (by omega) (hs.same (t := { s with
                pending := afterNewline s.pending, oversizeLines := s.oversizeLines + 1 })
                rfl rfl rfl) rfl
            · have hpass := readlinePass_line hnl hd ho
              rw [left_line hnl hd ho, readline, loop_stop hpass]
              exact ⟨rfl, rfl, fun _ => ⟨todo, hs.same rfl rfl rfl, hd, rfl⟩⟩
      · cases hsock : s.sock with
        | nil =>
            have hpass := readlinePass_end cfg hnl (by rw [hsock]; rfl)
            obtain ⟨hnl', ho'⟩ := dropPending_pending cfg hnl
            obtain ⟨hsame, hbuf, hskip⟩ := dropPending_untouched cfg s
            rw [toCome_end hs hsock, ← left_dropPending hnl, left_end hnl' ho', readline,
              loop_stop hpass]
            have hframed : Framed cfg { dropPending cfg s with
                sock := s.sock.tail, closed := true, pending := [] } todo :=
              hs.same hskip hbuf (by rw [hsock]; rfl)
            have htocome := toCome_end hframed (by rw [hsock]; rfl)
            generalize dropPending cfg s = d at *
            by_cases hline : d.discarding = true ∨ d.pending = []
            · have hnil : (if d.discarding then [] else d.pending) = [] := by
                rcases hline with h | h <;> simp [h]
              rw [hnil, if_pos hline]
              exact ⟨rfl, rfl, fun h => absurd rfl h⟩
            · rw [if_neg hline]
              rw [not_or] at hline
              rw [if_neg hline.1]
              refine ⟨rfl, rfl, fun _ => ⟨todo, hframed, Bool.not_eq_true _ |>.mp hline.1, ?_⟩⟩
              rw [htocome]
              rfl
        | cons chunk sock =>
            have hchunk : chunk ≠ [] := fun h => hs.sock (by simp [hsock, h])
            have hpass := readlinePass_recv cfg hnl hsock hchunk
            have hlt := hrank _ _ hpass
            obtain ⟨todo', hframed, htext, hdisc, hover, -⟩ := recv_framed hs hsock
            have hdrop : left cfg (dropPending cfg { s with sock := sock }) (toCome cfg s todo) =
                left cfg { s with sock := sock } (toCome cfg s todo) :=
              left_dropPending (s := { s with sock := sock }) hnl _
            have hleft : left cfg s (toCome cfg s todo) =
                left cfg (feed cfg (dropPending cfg { s with sock := sock }) chunk)
                  (toCome cfg (feed cfg (dropPending cfg { s with sock := sock }) chunk) todo') := by
              rw [left, left, htext, hdisc, hover]
              exact hdrop.symm
            rw [hleft, readline, loop_again hfalls hpass, List.nil_append]
            exact ih _ (hn ▸ hlt) hframed rfl

end

end AgentWeb.NextLine
