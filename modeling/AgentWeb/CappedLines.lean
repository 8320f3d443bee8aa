import AgentWeb.Delimited
import AgentWeb.LineCaps

namespace AgentWeb.CappedLines

open PyText Loops Delimited Pump LineCaps

abbrev Reading := Str × Str × Bool

def readPass (maxChars : Int) (text : Str) : Pass Str Reading :=
  let r := readCappedLine maxChars text
  if r.2 = ([], false) then .stop r.1 [] else .again r.1 [r]

/-- `read_capped_line` again and again, until the end of the stream. -/
def readAll (maxChars : Int) (text : Str) : List Reading :=
  (loop (readPass maxChars) List.length text).2

/-- A call reads the first of the lines: whole where it fits, and else as one
truncated result. The stream goes on with the next line. -/
structure ReadsLine (maxChars : Int) (line : Str) (rest : List Str) (r : Reading) : Prop where
  resumes : r.1 = rest.flatten
  whole : (line.length : Int) ≤ maxChars → r.2 = (line, false)
  truncated : maxChars < line.length → r.2.2 = true

/-- The calls read the lines one by one. -/
inductive ReadsLines (maxChars : Int) : List Str → List Reading → Prop
  | done : ReadsLines maxChars [] []
  | line {line : Str} {rest : List Str} {r : Reading} {rs : List Reading}
      (first : ReadsLine maxChars line rest r) (others : ReadsLines maxChars rest rs) :
      ReadsLines maxChars (line :: rest) (r :: rs)

theorem readPass_falls (maxChars : Int) : Falls (readPass maxChars) List.length := by
  intro text rest out h
  simp only [readPass] at h
  split_ifs at h with hend
  cases h
  exact readCappedLine_length hend

theorem readsLine_last_iff {n : Nat} (hn : 1 ≤ n) {line : Str} (h : 10 ∉ line) :
    ReadsLine n line [] (readCappedLine n line) ↔ line.length ≠ n := by
  have hread := readCappedLine_behind hn h (.inl rfl)
  rw [List.append_nil] at hread
  rw [hread]
  constructor
  · rintro hr heq
    have hwhole := hr.whole (by omega)
    rw [if_pos (by omega)] at hwhole
    exact absurd (congrArg Prod.snd hwhole) (by simp)
  · intro hne
    by_cases hge : n ≤ line.length
    · rw [if_pos hge]
      exact ⟨rfl, fun hle => by omega, fun _ => rfl⟩
    · rw [if_neg hge]
      exact ⟨rfl, fun _ => by simp, fun hlt => by omega⟩

theorem readsLine_line {n : Nat} (hn : 1 ≤ n) {line : Str} (h : 10 ∉ line) (text : Str) :
    ReadsLine n (line ++ [10]) (delimited 10 text) (readCappedLine n (line ++ 10 :: text)) := by
  have hread := readCappedLine_behind hn h (.inr ⟨text, rfl⟩)
  rw [hread]
  by_cases hge : n ≤ line.length
  · rw [if_pos hge]
    refine ⟨(flatten_delimited text).symm, fun hle => ?_, fun _ => rfl⟩
    rw [List.length_append, List.length_singleton] at hle
    omega
  · rw [if_neg hge]
    refine ⟨(flatten_delimited text).symm, fun _ => rfl, fun hlt => ?_⟩
    rw [List.length_append, List.length_singleton] at hlt
    omega

theorem readAll_nil {n : Nat} (hn : 1 ≤ n) : readAll n [] = [] := by
  have hread := readCappedLine_behind hn (List.not_mem_nil : 10 ∉ ([] : Str)) (.inl rfl)
  rw [List.length_nil, if_neg (by omega)] at hread
  have hpass : readPass n [] = .stop [] [] := by
    rw [readPass, show ([] : Str) = [] ++ [] from rfl, hread]
    rfl
  rw [readAll, loop_stop hpass]

theorem readAll_more {maxChars : Int} {text : Str}
    (h : (readCappedLine maxChars text).2 ≠ ([], false)) :
    readAll maxChars text =
      readCappedLine maxChars text :: readAll maxChars (readCappedLine maxChars text).1 := by
  have hpass : readPass maxChars text =
      .again (readCappedLine maxChars text).1 [readCappedLine maxChars text] := if_neg h
  rw [readAll, loop_again (readPass_falls maxChars) hpass]
  rfl

theorem readAll_last {n : Nat} (hn : 1 ≤ n) {line : Str} (h : 10 ∉ line) (hne : line ≠ []) :
    readAll n line = [readCappedLine n line] := by
  have hread := readCappedLine_behind hn h (.inl rfl)
  rw [List.append_nil] at hread
  have hmore : (readCappedLine n line).2 ≠ ([], false) := by
    rw [hread]
    split <;> simp [hne]
  have hrest : (readCappedLine n line).1 = [] := by
    rw [hread]
    split <;> rfl
  rw [readAll_more hmore, hrest, readAll_nil hn]

theorem readAll_line {n : Nat} (hn : 1 ≤ n) {line : Str} (h : 10 ∉ line) (text : Str) :
    readAll n (line ++ 10 :: text) = readCappedLine n (line ++ 10 :: text) :: readAll n text := by
  have hread := readCappedLine_behind hn h (.inr ⟨text, rfl⟩)
  have hmore : (readCappedLine n (line ++ 10 :: text)).2 ≠ ([], false) := by
    rw [hread]
    split <;> simp
  have hrest : (readCappedLine n (line ++ 10 :: text)).1 = text := by
    rw [hread]
    split <;> rfl
  rw [readAll_more hmore, hrest]

/-- Reading until the end gives the lines of the text, unless an unterminated last
line is exactly as long as the cap. -/
theorem readAll_readsLines_iff (text : Str) (maxChars : Int) (hpos : 1 ≤ maxChars) :
    ReadsLines maxChars (delimited 10 text) (readAll maxChars text) ↔
      ((unterminated 10 text).length : Int) ≠ maxChars := by
  obtain ⟨n, rfl⟩ := Int.eq_ofNat_of_zero_le (by omega : 0 ≤ maxChars)
  have hn : 1 ≤ n := by omega
  rw [Ne, Int.natCast_inj]
  induction text using delimited_induction (d := 10) with
  | last line h =>
      rw [delimited_last h, unterminated_last h]
      by_cases hl : line = []
      · subst hl
        rw [if_pos rfl, readAll_nil hn, List.length_nil]
        exact ⟨fun _ => by omega, fun _ => .done⟩
      · rw [if_neg hl, readAll_last hn h hl]
        refine Iff.trans ?_ (readsLine_last_iff hn h)
        constructor
        · rintro (_ | ⟨first, -⟩)
          exact first
        · exact fun first => .line first .done
  | line line text h ih =>
      rw [delimited_line h, unterminated_line, readAll_line hn h]
      refine Iff.trans ?_ ih
      constructor
      · rintro (_ | ⟨-, others⟩)
        exact others
      · exact fun others => .line (readsLine_line hn h text) others

/-- A long line, then one that fits and ends the text. -/
theorem readAll_readsLines_two :
    ReadsLines 3 (delimited 10 (str "abcde\nxy")) (readAll 3 (str "abcde\nxy")) :=
  (readAll_readsLines_iff _ 3 (by decide)).mpr (by decide)

/-- Without a newline, a line of three characters does not fit into a cap of three. -/
theorem not_readsLines_abc :
    ¬∀ (text : Str) (maxChars : Int), 1 ≤ maxChars →
      ReadsLines maxChars (delimited 10 text) (readAll maxChars text) := by
  intro h
  have hlast : readAll 3 (str "abc") = [readCappedLine 3 (str "abc")] :=
    readAll_last (n := 3) (by decide) (by decide) (by decide)
  have hlines : delimited 10 (str "abc") = [str "abc"] := by decide
  have hread := h (str "abc") 3 (by decide)
  rw [hlines, hlast] at hread
  obtain _ | ⟨first, -⟩ := hread
  exact (readsLine_last_iff (n := 3) (by decide) (by decide)).mp first rfl

end AgentWeb.CappedLines
