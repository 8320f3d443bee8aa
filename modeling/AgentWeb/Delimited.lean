import Mathlib.Data.List.DropRight

namespace AgentWeb.Delimited

variable {α : Type*} [DecidableEq α] {d : α}

/-- The parts of a text with the delimiters that end them. The last one has none
where the text goes on behind its last delimiter. -/
def delimited (d : α) (text : List α) : List (List α) :=
  let parts := text.splitOn d
  parts.dropLast.map (· ++ [d]) ++ (parts.getLast?.toList.filter (· ≠ []))

def unterminated (d : α) (text : List α) : List α := text.rtakeWhile (· ≠ d)

theorem delimited_line {line : List α} (h : d ∉ line) (text : List α) :
    delimited d (line ++ d :: text) = (line ++ [d]) :: delimited d text := by
  have hparts := List.splitOn_append_cons_self_of_not_mem h text
  obtain ⟨part, parts, hsplit⟩ := List.exists_cons_of_ne_nil (List.splitOn_ne_nil d text)
  rw [delimited, delimited, hparts, hsplit, List.dropLast_cons_cons, List.getLast?_cons_cons]
  rfl

theorem delimited_last {line : List α} (h : d ∉ line) :
    delimited d line = if line = [] then [] else [line] := by
  rw [delimited, List.splitOn_eq_singleton h]
  by_cases hl : line = [] <;> simp [hl]

/-- Induction along the parts of a text. -/
theorem delimited_induction {motive : List α → Prop}
    (last : ∀ line, d ∉ line → motive line)
    (line : ∀ line text, d ∉ line → motive text → motive (line ++ d :: text))
    (text : List α) : motive text := by
  induction hn : text.length using Nat.strongRecOn generalizing text with
  | ind n ih =>
      by_cases h : d ∈ text
      · obtain ⟨part, rest, rfl, hno⟩ := List.eq_append_cons_of_mem h
        refine line part rest hno (ih rest.length ?_ rest rfl)
        rw [List.length_append, List.length_cons] at hn
        omega
      · exact last text h

theorem flatten_delimited (text : List α) : (delimited d text).flatten = text := by
  induction text using delimited_induction (d := d) with
  | last line h =>
      rw [delimited_last h]
      by_cases hl : line = [] <;> simp [hl]
  | line line text h ih =>
      rw [delimited_line h, List.flatten_cons, ih, List.append_assoc]
      rfl

theorem unterminated_last {line : List α} (h : d ∉ line) : unterminated d line = line := by
  rw [unterminated, List.rtakeWhile_eq_self_iff]
  intro c hc
  exact decide_eq_true fun he => h (he ▸ hc)

theorem unterminated_line (line text : List α) :
    unterminated d (line ++ d :: text) = unterminated d text := by
  induction text using List.reverseRecOn with
  | nil => simp [unterminated]
  | append_singleton text c ih =>
      have hcons : line ++ d :: (text ++ [c]) = (line ++ d :: text) ++ [c] := by simp
      rw [unterminated, unterminated] at ih ⊢
      rw [hcons, List.rtakeWhile_concat, List.rtakeWhile_concat, ih]

end AgentWeb.Delimited
