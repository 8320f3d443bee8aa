import AgentWeb.Html
import Mathlib.Data.List.Forall2
import Mathlib.Data.List.TakeWhile

namespace AgentWeb.RenderAnswer

open PyText Html

def escape (c : Nat) : Str :=
  if c = 38 then "&amp;"
  else if c = 60 then "&lt;"
  else if c = 62 then "&gt;"
  else if c = 34 then "&quot;"
  else if c = 39 then "&#39;"
  else [c]

def escapeHtml (s : Str) : Str := s.flatMap escape

/-- What `.` does not match. -/
def isLineTerminator (c : Nat) : Bool := c = 10 || c = 13 || c = 0x2028 || c = 0x2029

/-- The lazy `.*?` up to the next `**`, and what is behind that. -/
def closing : Str → Option (Str × Str)
  | 42 :: 42 :: rest => some ([], rest)
  | c :: rest => if isLineTerminator c then none else (closing rest).map fun m => (c :: m.1, m.2)
  | [] => none

def boldAt : Str → Option (Str × Str)
  | 42 :: 42 :: c :: rest =>
      if isLineTerminator c then none else (closing rest).map fun m => (c :: m.1, m.2)
  | _ => none

theorem closing_eq_some {s : Str} {m : Str × Str} (h : closing s = some m) : s = m.1 ++ 42 :: 42 :: m.2 := by
  induction s using closing.induct generalizing m with
  | case1 rest =>
      obtain rfl := Option.some.inj h
      rfl
  | case2 c rest hne hc =>
      rw [closing, if_pos hc] at h
      · cases h
      · exact hne
  | case3 c rest hne hc ih =>
      rw [closing, if_neg hc] at h
      · obtain ⟨m', hm', rfl⟩ := Option.map_eq_some_iff.mp h
        exact congrArg (c :: ·) (ih hm')
      · exact hne
  | case4 => cases h

theorem boldAt_eq_some {s : Str} {m : Str × Str} (h : boldAt s = some m) :
    s = 42 :: 42 :: m.1 ++ 42 :: 42 :: m.2 := by
  unfold boldAt at h
  split at h
  next c rest =>
    split at h
    · cases h
    · obtain ⟨m', hm', rfl⟩ := Option.map_eq_some_iff.mp h
      rw [closing_eq_some hm']
      rfl
  next => cases h

def scan : Str → List (Nat ⊕ Str)
  | [] => []
  | c :: s =>
      match _h : boldAt (c :: s) with
      | some m => .inr m.1 :: scan m.2
      | none => .inl c :: scan s
termination_by s => s.length
decreasing_by
  · rw [boldAt_eq_some ‹boldAt (c :: s) = some m›]
    simp only [List.length_cons, List.length_append]
    omega
  · exact Nat.lt_succ_self _

/-- `.replace(/\*\*(.+?)\*\*/g, "<b>$1</b>")`. -/
def replaceBold (s : Str) : Str :=
  (scan s).flatMap (Sum.elim (fun c => [c]) fun inner => str "<b>" ++ inner ++ str "</b>")

/-- `.replace(/\n/g, "<br>")`. -/
def replaceBreaks (s : Str) : Str := s.flatMap fun c => if c = 10 then str "<br>" else [c]

inductive Piece
  | pre (textContent : Str)
  | span (innerHTML : Str)

/-- `.split(/```/)`. -/
def split : Str → List Str
  | 96 :: 96 :: 96 :: rest => [] :: split rest
  | c :: rest => match split rest with
    | [] => [[c]]
    | part :: parts => (c :: part) :: parts
  | [] => [[]]

def code (part : Str) : Str :=
  match part.dropWhile (· ≠ 10) with
  | [] => part
  | _ :: rest => rest

def piece (part : Str) (i : Nat) : Piece :=
  if i % 2 = 1 then .pre (code part) else .span (replaceBreaks (replaceBold (escapeHtml part)))

def renderAnswer (text : Str) : List Piece := (split text).zipIdx.map fun p => piece p.1 p.2

theorem split_ne_nil (text : Str) : split text ≠ [] := by
  induction text using split.induct with
  | case1 rest ih => exact List.cons_ne_nil _ _
  | case2 c rest hne hnil ih => exact absurd hnil ih
  | case3 c rest hne part parts hparts ih =>
      rw [split, hparts]
      · exact List.cons_ne_nil _ _
      · exact hne
  | case4 => exact List.cons_ne_nil _ _

theorem join_split (text : Str) : List.intercalate (str "```") (split text) = text := by
  induction text using split.induct with
  | case1 rest ih =>
      rw [split, List.intercalate_cons_of_ne_nil (split_ne_nil rest), ih]
      rfl
  | case2 c rest hne hnil ih => exact absurd hnil (split_ne_nil rest)
  | case3 c rest hne part parts hparts ih =>
      rw [hparts] at ih
      rw [split, hparts]
      · exact List.intercalate_cons_cons_left.trans (congrArg (c :: ·) ih)
      · exact hne
  | case4 => rfl

theorem escape_of_terminator {c : Nat} (h : isLineTerminator c = true) : escape c = [c] := by
  simp only [isLineTerminator, Bool.or_eq_true, decide_eq_true_eq] at h
  rcases h with ((rfl | rfl) | rfl) | rfl <;> rfl

theorem escape_cases (c : Nat) :
    escape c = [c] ∨ ∃ w, escape c = 38 :: w ∧ c ≠ 42 ∧ isLineTerminator c = false ∧
      ∀ d ∈ escape c, d ≠ 42 ∧ isLineTerminator d = false := by
  unfold escape
  split
  next h => exact .inr ⟨_, rfl, h ▸ by decide⟩
  split
  next h => exact .inr ⟨_, rfl, h ▸ by decide⟩
  split
  next h => exact .inr ⟨_, rfl, h ▸ by decide⟩
  split
  next h => exact .inr ⟨_, rfl, h ▸ by decide⟩
  split
  next h => exact .inr ⟨_, rfl, h ▸ by decide⟩
  next => exact .inl rfl

theorem closing_append {w : Str} (h : ∀ d ∈ w, d ≠ 42 ∧ isLineTerminator d = false) (s : Str) :
    closing (w ++ s) = (closing s).map fun m => (w ++ m.1, m.2) := by
  induction w with
  | nil => exact (Option.map_id' ..).symm
  | cons d w ih =>
      obtain ⟨hd, hw⟩ := List.forall_mem_cons.mp h
      rw [List.cons_append, closing, if_neg (by simp [hd.2]), ih hw, Option.map_map]
      · rfl
      · exact fun _ hstar _ => hd.1 hstar

theorem escapeHtml_cons (c : Nat) (s : Str) : escapeHtml (c :: s) = escape c ++ escapeHtml s := rfl

theorem star_of_escapeHtml {s t : Str} (h : escapeHtml s = 42 :: t) : ∃ s', s = 42 :: s' ∧ t = escapeHtml s' := by
  cases s with
  | nil => cases h
  | cons c s =>
      rw [escapeHtml_cons] at h
      rcases escape_cases c with hc | ⟨w, hc, -⟩
      · rw [hc] at h
        obtain ⟨rfl, rfl⟩ := List.cons.inj h
        exact ⟨s, rfl, rfl⟩
      · rw [hc] at h
        exact absurd (List.cons.inj h).1 (by decide)

def escapeMatch (m : Str × Str) : Str × Str := (escapeHtml m.1, escapeHtml m.2)

theorem closing_escapeHtml (s : Str) : closing (escapeHtml s) = (closing s).map escapeMatch := by
  induction s using closing.induct with
  | case1 rest => rfl
  | case2 c rest hne hc =>
      have hraw : closing (c :: rest) = none := by
        rw [closing, if_pos hc]
        exact hne
      rw [hraw, escapeHtml_cons, escape_of_terminator hc, List.singleton_append, closing, if_pos hc]
      · rfl
      · rintro s' rfl
        exact absurd hc (by decide)
  | case3 c rest hne hc ih =>
      have hraw : closing (c :: rest) = (closing rest).map fun m => (c :: m.1, m.2) := by
        rw [closing, if_neg hc]
        exact hne
      rw [hraw, escapeHtml_cons]
      rcases escape_cases c with hself | ⟨w, -, -, -, hpass⟩
      · rw [hself, List.singleton_append, closing, if_neg hc, ih, Option.map_map, Option.map_map]
        · refine congrArg (Option.map · _) (funext fun m => ?_)
          simp [escapeMatch, escapeHtml_cons, hself]
        · intro t hc' ht
          obtain ⟨s', rfl, -⟩ := star_of_escapeHtml ht
          exact hne s' hc' rfl
      · rw [closing_append hpass, ih, Option.map_map, Option.map_map]
        rfl
  | case4 => rfl

theorem boldAt_escapeHtml (s : Str) : boldAt (escapeHtml s) = (boldAt s).map escapeMatch := by
  by_cases hs : ∃ c rest, s = 42 :: 42 :: c :: rest
  · obtain ⟨c, rest, rfl⟩ := hs
    have hfront : escapeHtml (42 :: 42 :: c :: rest) = 42 :: 42 :: (escape c ++ escapeHtml rest) := rfl
    rw [hfront]
    rcases escape_cases c with hself | ⟨w, hw, -, hc, hpass⟩
    · rw [hself, List.singleton_append, boldAt, boldAt, closing_escapeHtml, apply_ite (Option.map escapeMatch),
        Option.map_none, Option.map_map, Option.map_map]
      refine congrArg (ite _ none) (congrArg (Option.map · _) (funext fun m => ?_))
      simp [escapeMatch, escapeHtml_cons, hself]
    · rw [hw, List.forall_mem_cons] at hpass
      rw [hw, List.cons_append, boldAt, boldAt, if_neg (by decide), if_neg (by simp [hc]), closing_append hpass.2,
        closing_escapeHtml, Option.map_map, Option.map_map, Option.map_map]
      refine congrArg (Option.map · _) (funext fun m => ?_)
      simp [escapeMatch, escapeHtml_cons, hw]
  · have hnone : ∀ t : Str, (¬ ∃ c rest, t = 42 :: 42 :: c :: rest) → boldAt t = none := by
      intro t ht
      unfold boldAt
      split
      next c rest => exact absurd ⟨c, rest, rfl⟩ ht
      next => rfl
    rw [hnone s hs, hnone (escapeHtml s)]
    · rfl
    · rintro ⟨d, t, h⟩
      obtain ⟨s', rfl, h'⟩ := star_of_escapeHtml h
      obtain ⟨s'', rfl, h''⟩ := star_of_escapeHtml h'.symm
      cases s'' with
      | nil => cases h''
      | cons c rest => exact hs ⟨c, rest, rfl⟩

theorem scan_of_some {c : Nat} {s : Str} {m : Str × Str} (h : boldAt (c :: s) = some m) :
    scan (c :: s) = .inr m.1 :: scan m.2 := by
  rw [scan]
  split
  next m' hm' =>
    obtain rfl := Option.some.inj (hm'.symm.trans h)
    rfl
  next hnone => cases hnone.symm.trans h

theorem scan_of_none {c : Nat} {s : Str} (h : boldAt (c :: s) = none) : scan (c :: s) = .inl c :: scan s := by
  rw [scan]
  split
  next m' hm' => cases hm'.symm.trans h
  next => rfl

theorem scan_append {w : Str} (h : ∀ d ∈ w, d ≠ 42) (s : Str) : scan (w ++ s) = w.map .inl ++ scan s := by
  induction w with
  | nil => rfl
  | cons d w ih =>
      obtain ⟨hd, hw⟩ := List.forall_mem_cons.mp h
      have hnone : boldAt (d :: (w ++ s)) = none := by
        unfold boldAt
        split
        next hstar => exact absurd (List.cons.inj hstar).1 hd
        next => rfl
      rw [List.cons_append, scan_of_none hnone, ih hw]
      rfl

def escapeSegment : Nat ⊕ Str → List (Nat ⊕ Str)
  | .inl c => (escape c).map .inl
  | .inr inner => [.inr (escapeHtml inner)]

theorem scan_escapeHtml (s : Str) : scan (escapeHtml s) = (scan s).flatMap escapeSegment := by
  induction s using scan.induct with
  | case1 => simp [escapeHtml, scan]
  | case2 c s m hm ih =>
      have hfound := boldAt_escapeHtml (c :: s)
      rw [hm, Option.map_some] at hfound
      rw [scan_of_some hm, List.flatMap_cons, ← ih]
      cases hs : escapeHtml (c :: s) with
      | nil =>
          rw [hs] at hfound
          cases hfound
      | cons d t =>
          rw [hs] at hfound
          rw [scan_of_some hfound]
          rfl
  | case3 c s hnone ih =>
      have hfound := boldAt_escapeHtml (c :: s)
      rw [hnone, Option.map_none] at hfound
      rw [scan_of_none hnone, List.flatMap_cons, ← ih, escapeHtml_cons, escapeSegment]
      rcases escape_cases c with hself | ⟨w, -, -, -, hpass⟩
      · rw [escapeHtml_cons, hself] at hfound
        rw [hself, List.singleton_append, scan_of_none (s := escapeHtml s) hfound]
        rfl
      · exact scan_append (fun d hd => (hpass d hd).1) _

/-- The tags and references that `renderAnswer` writes. -/
def names : Names where
  tag name :=
    if name = str "b" then some (.start "b")
    else if name = str "/b" then some (.close "b")
    else if name = str "br" then some (.start "br")
    else none
  reference name :=
    if name = str "amp" then some 38
    else if name = str "lt" then some 60
    else if name = str "gt" then some 62
    else if name = str "quot" then some 34
    else if name = str "#39" then some 39
    else none

def glyph (c : Nat) : Str := if c = 10 then str "<br>" else escape c

theorem replaceBreaks_of_not_mem {s : Str} (h : 10 ∉ s) : replaceBreaks s = s := by
  induction s with
  | nil => rfl
  | cons c s ih =>
      rw [List.mem_cons, not_or] at h
      rw [replaceBreaks, List.flatMap_cons, if_neg (Ne.symm h.1)]
      exact congrArg (c :: ·) (ih h.2)

theorem replaceBreaks_escape (c : Nat) : replaceBreaks (escape c) = glyph c := by
  unfold glyph
  split
  next hc =>
    subst hc
    rfl
  next hc =>
    refine replaceBreaks_of_not_mem fun hmem => ?_
    rcases escape_cases c with hself | ⟨w, -, -, -, hpass⟩
    · rw [hself, List.mem_singleton] at hmem
      exact hc hmem.symm
    · exact absurd (hpass 10 hmem).2 (by decide)

def segmentHtml : Nat ⊕ Str → Str
  | .inl c => glyph c
  | .inr inner => str "<b>" ++ inner.flatMap glyph ++ str "</b>"

theorem html_eq (s : Str) : replaceBreaks (replaceBold (escapeHtml s)) = (scan s).flatMap segmentHtml := by
  have happend : ∀ s t, replaceBreaks (s ++ t) = replaceBreaks s ++ replaceBreaks t := fun _ _ => List.flatMap_append
  have hescaped : ∀ s, replaceBreaks (escapeHtml s) = s.flatMap glyph := by
    intro s
    rw [replaceBreaks, escapeHtml, List.flatMap_assoc]
    exact congrArg (fun f => s.flatMap f) (funext replaceBreaks_escape)
  rw [replaceBold, scan_escapeHtml, List.flatMap_assoc, replaceBreaks, List.flatMap_assoc]
  refine congrArg (fun f => (scan s).flatMap f) (funext fun segment => ?_)
  cases segment with
  | inl c =>
      refine Eq.trans (congrArg replaceBreaks ?_) (replaceBreaks_escape c)
      rw [escapeSegment, List.flatMap_map]
      exact List.flatMap_singleton' _
  | inr inner =>
      have hgroup : ([Sum.inr (escapeHtml inner)] : List (Nat ⊕ Str)).flatMap
          (Sum.elim (fun c => [c]) fun inner => str "<b>" ++ inner ++ str "</b>") =
          str "<b>" ++ escapeHtml inner ++ str "</b>" := List.append_nil _
      refine (congrArg replaceBreaks hgroup).trans ?_
      rw [happend, happend, hescaped]
      rfl

def shownChar (c : Nat) : List Token :=
  if c = 10 then [.start "br"] else if c = 0 then [] else if c = 13 then [.char 10] else [.char c]

def segmentTokens : Nat ⊕ Str → List Token
  | .inl c => shownChar c
  | .inr inner => .start "b" :: inner.flatMap shownChar ++ [.close "b"]

def lineFeed (c : Nat) : Nat := if c = 13 then 10 else c

theorem tokens_glyph (c : Nat) : tokens names .data ((glyph c).map lineFeed) = some (shownChar c) := by
  unfold glyph escape
  split
  next hc => subst hc; decide
  next hbreak =>
  split
  next hc => subst hc; decide
  next hamp =>
  split
  next hc => subst hc; decide
  next hless =>
  split
  next hc => subst hc; decide
  split
  next hc => subst hc; decide
  split
  next hc => subst hc; decide
  rw [shownChar, if_neg hbreak, List.map_singleton, lineFeed]
  by_cases hcr : c = 13
  · subst hcr
    decide
  · by_cases hnul : c = 0
    · subst hnul
      decide
    · simp [tokens, hamp, hless, hcr, hnul]

theorem tokens_segment (segment : Nat ⊕ Str) :
    tokens names .data ((segmentHtml segment).map lineFeed) = some (segmentTokens segment) := by
  cases segment with
  | inl c => exact tokens_glyph c
  | inr inner =>
      have hinner : tokens names .data ((inner.flatMap glyph).map lineFeed) = some (inner.flatMap shownChar) := by
        rw [List.map_flatMap]
        exact tokens_flatMap fun c _ => tokens_glyph c
      have hopen : tokens names .data ((str "<b>").map lineFeed) = some [.start "b"] := by decide
      have hclose : tokens names .data ((str "</b>").map lineFeed) = some [.close "b"] := by decide
      rw [segmentHtml, List.map_append, List.map_append, List.append_assoc, tokens_append hopen,
        tokens_append hinner, hclose]
      rfl

theorem parse_html (s : Str) :
    parse names (replaceBreaks (replaceBold (escapeHtml s))) = some ((scan s).flatMap segmentTokens) := by
  have hnone : 10 ∉ replaceBreaks (replaceBold (escapeHtml s)) := by
    intro hmem
    obtain ⟨c, -, hc⟩ := List.mem_flatMap.mp hmem
    split at hc
    · exact absurd hc (by decide)
    next hne => exact hne (List.mem_singleton.mp hc).symm
  rw [parse, normalizeNewlines_of_not_mem hnone, html_eq]
  refine Eq.trans (congrArg (tokens names .data) List.map_flatMap) ?_
  exact tokens_flatMap fun segment _ => tokens_segment segment

def shownText (s : Str) : Str := (s.filter (· ≠ 0)).map lineFeed

def source : Token → Str
  | .char c => [c]
  | .start name => if name = str "br" then [10] else str "**"
  | .close _ => str "**"

def isVoid (name : Str) : Bool := name = str "br"

theorem shownText_append (s t : Str) : shownText (s ++ t) = shownText s ++ shownText t := by
  rw [shownText, List.filter_append, List.map_append, shownText, shownText]

theorem source_shownChar (c : Nat) : (shownChar c).flatMap source = shownText [c] := by
  unfold shownChar
  split
  next hc => subst hc; decide
  split
  next hc => subst hc; decide
  next hnul =>
    split
    next hc => subst hc; decide
    next hcr => simp [source, shownText, lineFeed, hnul, hcr]

theorem source_text (s : Str) : (s.flatMap shownChar).flatMap source = shownText s := by
  induction s with
  | nil => rfl
  | cons c s ih => rw [List.flatMap_cons, List.flatMap_append, ih, source_shownChar, ← shownText_append, List.singleton_append]

theorem source_tokens (s : Str) : ((scan s).flatMap segmentTokens).flatMap source = shownText s := by
  induction s using scan.induct with
  | case1 => simp [scan, shownText]
  | case2 c s m hm ih =>
      have hbold : (segmentTokens (.inr m.1)).flatMap source = str "**" ++ shownText m.1 ++ str "**" := by
        rw [segmentTokens, List.flatMap_append, List.flatMap_cons, source_text]
        rfl
      have hstars : shownText (str "**") = str "**" := by decide
      have htext : c :: s = str "**" ++ m.1 ++ (str "**" ++ m.2) := boldAt_eq_some hm
      rw [scan_of_some hm, List.flatMap_cons, List.flatMap_append, ih, htext, hbold, shownText_append,
        shownText_append, shownText_append, hstars, List.append_assoc _ (str "**")]
  | case3 c s hnone ih =>
      rw [scan_of_none hnone, List.flatMap_cons, List.flatMap_append, ih, segmentTokens, source_shownChar,
        ← shownText_append, List.singleton_append]

theorem nested_text (opened : List Str) (s : Str) (ts : List Token) :
    nested isVoid opened (s.flatMap shownChar ++ ts) = nested isVoid opened ts := by
  induction s with
  | nil => rfl
  | cons c s ih =>
      rw [List.flatMap_cons, List.append_assoc]
      unfold shownChar
      split
      · exact ih
      split
      · exact ih
      split
      · exact ih
      · exact ih

theorem nested_segments (segments : List (Nat ⊕ Str)) : nested isVoid [] (segments.flatMap segmentTokens) = true := by
  induction segments with
  | nil => rfl
  | cons segment segments ih =>
      rw [List.flatMap_cons]
      cases segment with
      | inl c =>
          have hchar := nested_text [] [c] (segments.flatMap segmentTokens)
          rw [List.flatMap_singleton] at hchar
          exact hchar.trans ih
      | inr inner =>
          rw [segmentTokens, List.append_assoc]
          exact (nested_text [str "b"] inner _).trans ih

theorem markup_segments {segments : List (Nat ⊕ Str)} {t : Token} (h : t ∈ segments.flatMap segmentTokens) :
    (∃ c, t = .char c) ∨ t = .start "b" ∨ t = .close "b" ∨ t = .start "br" := by
  have hchar : ∀ {s : Str}, t ∈ s.flatMap shownChar → (∃ c, t = .char c) ∨ t = .start "br" := by
    intro s ht
    obtain ⟨c, -, ht⟩ := List.mem_flatMap.mp ht
    unfold shownChar at ht
    split at ht
    · exact .inr (List.mem_singleton.mp ht)
    split at ht
    · cases ht
    split at ht
    · exact .inl ⟨10, List.mem_singleton.mp ht⟩
    · exact .inl ⟨c, List.mem_singleton.mp ht⟩
  obtain ⟨segment, -, ht⟩ := List.mem_flatMap.mp h
  cases segment with
  | inl c =>
      rcases hchar (s := [c]) (by rwa [List.flatMap_singleton]) with hc | hbr
      · exact .inl hc
      · exact .inr (.inr (.inr hbr))
  | inr inner =>
      rcases List.mem_append.mp ht with ht | ht
      · rcases List.mem_cons.mp ht with hb | ht
        · exact .inr (.inl hb)
        · rcases hchar ht with hc | hbr
          · exact .inl hc
          · exact .inr (.inr (.inr hbr))
      · exact .inr (.inr (.inl (List.mem_singleton.mp ht)))

theorem code_eq (part : Str) : part = code part ∨ ∃ info, 10 ∉ info ∧ part = info ++ 10 :: code part := by
  have hsplit : part.takeWhile (· ≠ 10) ++ part.dropWhile (· ≠ 10) = part := List.takeWhile_append_dropWhile
  unfold code
  split
  next => exact .inl rfl
  next c rest hrest =>
    have hhead := List.head?_dropWhile_not (fun c => decide (c ≠ 10)) part
    rw [hrest] at hhead hsplit
    obtain rfl : c = 10 := by simpa using hhead
    refine .inr ⟨part.takeWhile (· ≠ 10), fun hmem => ?_, hsplit.symm⟩
    have hne := List.mem_takeWhile_imp (p := fun c => decide (c ≠ 10)) hmem
    exact absurd hne (by decide)

/-- What a piece is to be, for a part of the text: code is shown as it is, behind its first line. -/
def Shows (part : Str) (i : Nat) : Piece → Prop
  | .pre textContent => i % 2 = 1 ∧ (part = textContent ∨ ∃ info, 10 ∉ info ∧ part = info ++ 10 :: textContent)
  | .span innerHTML => i % 2 = 0 ∧ ∃ ts, parse names innerHTML = some ts ∧ ts.flatMap source = shownText part ∧
      nested isVoid [] ts = true ∧
      ∀ t ∈ ts, (∃ c, t = .char c) ∨ t = .start "b" ∨ t = .close "b" ∨ t = .start "br"

/-- Whatever the text of an answer is, none of it is read as markup: the page has bold texts and
line breaks only, each bold text is closed, and written as markdown what is there is the text. -/
theorem renderAnswer_shows (text : Str) : ∃ parts, List.intercalate (str "```") parts = text ∧
    List.Forall₂ (fun p => Shows p.1 p.2) parts.zipIdx (renderAnswer text) := by
  refine ⟨split text, join_split text, ?_⟩
  rw [renderAnswer, List.forall₂_map_right_iff, List.forall₂_same]
  rintro ⟨part, i⟩ -
  unfold piece
  split
  next hodd => exact ⟨hodd, code_eq part⟩
  next heven =>
    exact ⟨by omega, _, parse_html part, source_tokens part, nested_segments _, fun t ht => markup_segments ht⟩

end AgentWeb.RenderAnswer
