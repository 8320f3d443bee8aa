import AgentWeb.UploadChecks

namespace AgentWeb.FileNames

open PyText UploadChecks

/-- `Path(name).suffix`, of the last component: from its last dot on, unless
nothing stands before or behind that dot. -/
def suffix (name : Str) : Str :=
  if 2 ≤ (name.rdropWhile (· != 46)).length ∧ name.rtakeWhile (· != 46) ≠ [] then
    46 :: name.rtakeWhile (· != 46)
  else []

def stem (name : Str) : Str := name.take (name.length - (suffix name).length)

/-- What the substitution and `lstrip("._")` leave of the stem. -/
def lead (name : Str) : Str := (subUnsafe false (stem (pathName name))).dropWhile isDotOrUnderscore

theorem suffix_append {s e : Str} (hs : s ≠ []) (he : e ≠ []) (hdot : 46 ∉ e) :
    suffix (s ++ 46 :: e) = 46 :: e := by
  have hall : ∀ c ∈ e.reverse, (c != 46) = true := by
    intro c hc
    rw [bne_iff_ne]
    rintro rfl
    exact hdot (List.mem_reverse.mp hc)
  have hrev : (s ++ 46 :: e).reverse = e.reverse ++ 46 :: s.reverse := by simp
  have hbefore : (s ++ 46 :: e).rdropWhile (· != 46) = s ++ [46] := by
    rw [List.rdropWhile, hrev, List.dropWhile_append_of_pos hall]
    simp
  have hbehind : (s ++ 46 :: e).rtakeWhile (· != 46) = e := by
    rw [List.rtakeWhile, hrev, List.takeWhile_append_of_pos hall]
    simp
  rw [suffix, hbefore, hbehind, if_pos]
  refine ⟨?_, he⟩
  have := List.length_pos_iff.mpr hs
  simp only [List.length_append, List.length_singleton]
  omega

theorem exists_of_suffix {name : Str} (h : suffix name ≠ []) :
    ∃ s e, name = s ++ 46 :: e ∧ s ≠ [] ∧ e ≠ [] ∧ 46 ∉ e := by
  rw [suffix] at h
  split at h
  next hcond =>
    obtain ⟨hbefore, hbehind⟩ := hcond
    have hne : name.rdropWhile (· != 46) ≠ [] := by
      rintro hnil
      rw [hnil] at hbefore
      exact absurd hbefore (by decide)
    have hlast : (name.rdropWhile (· != 46)).getLast hne = 46 := by
      have := List.rdropWhile_last_not _ _ hne
      simpa using this
    have hsplit := List.dropLast_append_getLast hne
    rw [hlast] at hsplit
    refine ⟨(name.rdropWhile (· != 46)).dropLast, name.rtakeWhile (· != 46), ?_, ?_, hbehind, ?_⟩
    · calc name = name.rdropWhile (· != 46) ++ name.rtakeWhile (· != 46) :=
            List.rdropWhile_append_rtakeWhile.symm
        _ = (name.rdropWhile (· != 46)).dropLast ++ [46] ++ name.rtakeWhile (· != 46) := by
            rw [hsplit]
        _ = _ := by rw [List.append_assoc, List.singleton_append]
    · rw [ne_eq, ← List.length_eq_zero_iff, List.length_dropLast]
      omega
    · intro hmem
      exact absurd (List.mem_rtakeWhile_imp hmem) (by decide)
  next => exact absurd rfl h

theorem stem_append {s e : Str} (hs : s ≠ []) (he : e ≠ []) (hdot : 46 ∉ e) :
    stem (s ++ 46 :: e) = s := by
  rw [stem, suffix_append hs he hdot, List.length_append, Nat.add_sub_cancel, List.take_left]

theorem suffix_isSuffix (name : Str) : suffix name <:+ name := by
  by_cases h : suffix name = []
  · rw [h]
    exact List.nil_suffix
  · obtain ⟨s, e, rfl, hs, he, hdot⟩ := exists_of_suffix h
    rw [suffix_append hs he hdot]
    exact List.suffix_append _ _

theorem behind_dot_inj {s t e f : Str} (he : 46 ∉ e) (hf : 46 ∉ f)
    (h : s ++ 46 :: e = t ++ 46 :: f) : e = f := by
  induction s generalizing t with
  | nil =>
      cases t with
      | nil => exact List.tail_eq_of_cons_eq h
      | cons c t =>
          have htail : e = t ++ 46 :: f := List.tail_eq_of_cons_eq h
          exact absurd (htail ▸ List.mem_append_right t List.mem_cons_self) he
  | cons c s ih =>
      cases t with
      | nil =>
          have htail : s ++ 46 :: e = f := List.tail_eq_of_cons_eq h
          exact absurd (htail ▸ List.mem_append_right s List.mem_cons_self) hf
      | cons d t => exact ih (List.tail_eq_of_cons_eq h)

/-- A suffix outlives the cap when all of the name does, or when what the cap
leaves of the stem happens to end in the same text. -/
theorem isSuffix_take_iff (l : Str) {e : Str} (hdot : 46 ∉ e) (n : Nat) :
    46 :: e <:+ (l ++ 46 :: e).take n ↔
      (l ++ 46 :: e).length ≤ n ∨ n ≤ l.length ∧ 46 :: e <:+ l.take n := by
  rw [List.take_append]
  by_cases hl : n ≤ l.length
  · rw [Nat.sub_eq_zero_of_le hl, List.take_zero, List.append_nil]
    constructor
    · exact fun h => .inr ⟨hl, h⟩
    · rintro (h | ⟨-, h⟩)
      · rw [List.length_append, List.length_cons] at h
        omega
      · exact h
  · obtain ⟨k, hk⟩ : ∃ k, n - l.length = k + 1 := ⟨n - l.length - 1, by omega⟩
    rw [List.take_of_length_le (by omega : l.length ≤ n), hk, List.take_succ_cons,
      List.length_append, List.length_cons]
    constructor
    · rintro ⟨t, ht⟩
      have hsame : e = e.take k :=
        behind_dot_inj hdot (fun h => hdot (List.mem_of_mem_take h)) ht
      have hlen : e.length ≤ k := by
        rw [hsame]
        exact List.length_take_le k e
      exact .inl (by omega)
    · rintro (h | ⟨h, -⟩)
      · rw [List.take_of_length_le (by omega)]
        exact List.suffix_append _ _
      · exact absurd h hl

theorem subUnsafe_eq_self {s : Str} (h : ∀ c ∈ s, isSafeChar c) (inRun : Bool) :
    subUnsafe inRun s = s := by
  induction s generalizing inRun with
  | nil => rfl
  | cons c s ih =>
      obtain ⟨hc, hs⟩ := List.forall_mem_cons.mp h
      rw [subUnsafe, if_pos hc, ih hs]

theorem subUnsafe_append {c : Nat} (hc : isSafeChar c) (s t : Str) (inRun : Bool) :
    subUnsafe inRun (s ++ c :: t) = subUnsafe inRun s ++ c :: subUnsafe false t := by
  induction s generalizing inRun with
  | nil => rw [List.nil_append, subUnsafe, subUnsafe, if_pos hc, List.nil_append]
  | cons d s ih =>
      rw [List.cons_append, subUnsafe, subUnsafe, ih, ih]
      split
      · rfl
      · rw [List.append_assoc]

theorem length_rdropWhile_le_iff (p : Nat → Bool) (s : Str) (n : Nat) :
    (s.rdropWhile p).length ≤ n ↔ ∀ c ∈ s.drop n, p c := by
  have hsplit : s.rdropWhile p ++ s.rtakeWhile p = s := List.rdropWhile_append_rtakeWhile
  constructor
  · intro hn c hc
    rw [← hsplit, List.drop_append, List.drop_of_length_le hn, List.nil_append] at hc
    exact List.mem_rtakeWhile_imp (List.mem_of_mem_drop hc)
  · intro hall
    by_contra hn
    have hne : s.rdropWhile p ≠ [] := by
      rintro hnil
      rw [hnil] at hn
      exact hn (Nat.zero_le n)
    have hdrop : s.drop n = (s.rdropWhile p).drop n ++ s.rtakeWhile p := by
      conv_lhs => rw [← hsplit]
      exact List.drop_append_of_le_length (by omega)
    refine List.rdropWhile_last_not p s hne (hall _ ?_)
    rw [hdrop]
    refine List.mem_append_left _ ?_
    rw [← List.getLast_drop (by simpa using hn)]
    exact List.getLast_mem _

theorem stripDots_head {s : Str} (h : stripDots s ≠ []) :
    ∃ c t, stripDots s = c :: t ∧ isDotOrUnderscore c = false := by
  obtain ⟨c, t, ht⟩ := List.exists_cons_of_ne_nil h
  obtain ⟨u, hu⟩ := List.rdropWhile_prefix isDotOrUnderscore (s.dropWhile isDotOrUnderscore)
  refine ⟨c, t, ht, ?_⟩
  rw [stripDots] at ht
  rw [ht] at hu
  have hne : s.dropWhile isDotOrUnderscore ≠ [] := by
    rw [← hu]
    exact List.cons_ne_nil _ _
  have hhead := List.head_dropWhile_not isDotOrUnderscore hne
  simpa [← hu] using hhead

theorem safeFilename_head (name : Str) :
    ∃ c t, safeFilename name = c :: t ∧ isDotOrUnderscore c = false := by
  rw [safeFilename, orElse]
  split
  · exact ⟨117, "pload", by decide, by decide⟩
  next hne =>
    obtain ⟨c, t, ht, hc⟩ := stripDots_head hne
    rw [ht]
    exact ⟨c, t.take 199, rfl, hc⟩

structure Safe (result : Str) : Prop where
  nonempty : result ≠ []
  short : result.length ≤ 200
  safe : ∀ c ∈ result, isSafeChar c
  not_dot : result ≠ str "."
  not_dots : result ≠ str ".."

theorem safe_safeFilename (name : Str) : Safe (safeFilename name) := by
  obtain ⟨c, t, ht, hc⟩ := safeFilename_head name
  refine ⟨?_, List.length_take_le _ _, safeFilename_safe name, ?_, ?_⟩
  · rw [ht]
    exact List.cons_ne_nil c t
  all_goals
    rw [ht]
    rintro h
    rw [List.head_eq_of_cons_eq h] at hc
    exact absurd hc (by decide)

theorem pathName_eq_self {result : Str} (h : Safe result) : pathName result = result :=
  pathName_of_component h.nonempty (fun hmem => absurd (h.safe 47 hmem) (by decide)) h.not_dot

/-- Something of the stem is left, it fits below the cap together with the suffix,
and `strip` takes nothing off the end. -/
structure Fits (front suf : Str) : Prop where
  left : front ≠ []
  room : front.length + suf.length ≤ 200
  stays : suf.getLast? ≠ some 95

/-- The cap cuts within the stem, just behind a text that is the same as the suffix. -/
structure ByChance (front suf : Str) : Prop where
  long : 200 ≤ front.length
  ends : suf <:+ front.take 200
  reaches : ∃ c ∈ (front ++ suf).drop 199, isDotOrUnderscore c = false

theorem suffix_eq_iff {r e : Str} (he : e ≠ []) (hdot : 46 ∉ e) (hr : r.head? ≠ some 46) :
    suffix r = 46 :: e ↔ 46 :: e <:+ r := by
  constructor
  · intro h
    rw [← h]
    exact suffix_isSuffix r
  · rintro ⟨t, rfl⟩
    refine suffix_append ?_ he hdot
    rintro rfl
    exact hr rfl

theorem rdropWhile_eq_self_iff (l : Str) {e : Str} (he : e ≠ []) (hdot : 46 ∉ e) :
    (l ++ 46 :: e).rdropWhile isDotOrUnderscore = l ++ 46 :: e ↔ (46 :: e).getLast? ≠ some 95 := by
  obtain ⟨f, c, rfl⟩ : ∃ f c, e = f ++ [c] := ⟨_, _, (List.dropLast_append_getLast he).symm⟩
  have hc : c ≠ 46 := fun h => hdot (h ▸ List.mem_append_right f (List.mem_singleton.mpr rfl))
  rw [List.rdropWhile_eq_self_iff]
  simp [isDotOrUnderscore, hc, List.getLast?_cons]

theorem isSuffix_cleaned_iff {l e : Str} (hl : l ≠ []) (he : e ≠ []) (hdot : 46 ∉ e) :
    46 :: e <:+ ((l ++ 46 :: e).rdropWhile isDotOrUnderscore).take 200 ↔
      Fits l (46 :: e) ∨ ByChance l (46 :: e) := by
  have hstays := rdropWhile_eq_self_iff l he hdot
  have hcap := isSuffix_take_iff l hdot 200
  have hreach := length_rdropWhile_le_iff isDotOrUnderscore (l ++ 46 :: e) 199
  obtain ⟨u, hu⟩ := List.rdropWhile_prefix isDotOrUnderscore (l ++ 46 :: e)
  have hlen : (l ++ 46 :: e).length = l.length + (46 :: e).length := List.length_append
  have hwhole (hover : ¬ ((l ++ 46 :: e).rdropWhile isDotOrUnderscore).length ≤ 199) :
      ((l ++ 46 :: e).rdropWhile isDotOrUnderscore).take 200 = (l ++ 46 :: e).take 200 := by
    conv_rhs => rw [← hu]
    exact (List.take_append_of_le_length (by omega)).symm
  constructor
  · intro h
    by_cases hshort : ((l ++ 46 :: e).rdropWhile isDotOrUnderscore).length ≤ 199
    · -- the cap cuts nothing, and the text still ends where `strip` stopped
      rw [List.take_of_length_le (by omega)] at h
      obtain ⟨t, ht⟩ := h
      have hend : (46 :: e).getLast? ≠ some 95 := by
        rw [← rdropWhile_eq_self_iff t he hdot, ht, List.rdropWhile_idempotent]
      rw [hstays.mpr hend, hlen] at hshort
      exact .inl ⟨hl, by omega, hend⟩
    · rw [hwhole hshort, hcap] at h
      rcases h with hroom | ⟨hlong, hends⟩
      · -- the name fills the cap, so that `strip` took nothing
        have hnil : u = [] := by
          have := congrArg List.length hu
          rw [List.length_append] at this
          exact List.eq_nil_of_length_eq_zero (by omega)
        rw [hnil, List.append_nil] at hu
        exact .inl ⟨hl, by omega, hstays.mp hu⟩
      · rw [hreach] at hshort
        push Not at hshort
        obtain ⟨c, hc, hkeep⟩ := hshort
        exact .inr ⟨hlong, hends, c, hc, Bool.eq_false_iff.mpr hkeep⟩
  · rintro (⟨-, hroom, hend⟩ | ⟨hlong, hends, c, hc, hkeep⟩)
    · rw [hstays.mpr hend, List.take_of_length_le (by omega)]
      exact List.suffix_append _ _
    · have hover : ¬ ((l ++ 46 :: e).rdropWhile isDotOrUnderscore).length ≤ 199 := by
        rw [hreach]
        intro hall
        rw [hall c hc] at hkeep
        exact absurd hkeep (by decide)
      rw [hwhole hover, hcap]
      exact .inr ⟨hlong, hends⟩

theorem dropWhile_subUnsafe {s e : Str} (hsafe : ∀ c ∈ e, isSafeChar c) :
    (subUnsafe false (s ++ 46 :: e)).dropWhile isDotOrUnderscore =
      if (subUnsafe false s).dropWhile isDotOrUnderscore = [] then e.dropWhile isDotOrUnderscore
      else (subUnsafe false s).dropWhile isDotOrUnderscore ++ 46 :: e := by
  rw [subUnsafe_append (by decide), subUnsafe_eq_self hsafe, List.dropWhile_append]
  simp only [List.isEmpty_iff]
  rw [List.dropWhile_cons_of_pos (by decide)]

theorem dot_not_mem {s e : Str} (hsafe : ∀ c ∈ e, isSafeChar c) (hdot : 46 ∉ e)
    (hfront : (subUnsafe false s).dropWhile isDotOrUnderscore = []) :
    46 ∉ orElse (stripDots (subUnsafe false (s ++ 46 :: e))) "upload" := by
  rw [orElse, stripDots, dropWhile_subUnsafe hsafe, if_pos hfront]
  split
  · decide
  · intro hmem
    have hmem := (List.rdropWhile_prefix _ _).subset hmem
    exact hdot ((List.dropWhile_suffix _).subset hmem)

theorem suffix_safeFilename_iff {name s e : Str} (hname : pathName name = s ++ 46 :: e)
    (hs : s ≠ []) (he : e ≠ []) (hdot : 46 ∉ e) (hsafe : ∀ c ∈ e, isSafeChar c) :
    suffix (safeFilename name) = 46 :: e ↔
      Fits (lead name) (46 :: e) ∨ ByChance (lead name) (46 :: e) := by
  have hlead : lead name = (subUnsafe false s).dropWhile isDotOrUnderscore := by
    rw [lead, hname, stem_append hs he hdot]
  have hbase : orElse (pathName name) "upload" = s ++ 46 :: e := by
    rw [orElse, hname, if_neg (by simp)]
  obtain ⟨c, t, ht, hc⟩ := safeFilename_head name
  have hhead : (safeFilename name).head? ≠ some 46 := by
    rw [ht, List.head?_cons]
    rintro h
    rw [Option.some.inj h] at hc
    exact absurd hc (by decide)
  rw [suffix_eq_iff he hdot hhead, safeFilename, hbase]
  by_cases hfront : lead name = []
  · have hfront' := hlead.symm.trans hfront
    constructor
    · intro h
      have hmem := List.mem_of_mem_take (h.subset List.mem_cons_self)
      exact absurd hmem (dot_not_mem hsafe hdot hfront')
    · rintro (h | h)
      · exact absurd hfront h.left
      · have := h.long
        rw [hfront] at this
        exact absurd this (by decide)
  · have hcleaned : orElse (stripDots (subUnsafe false (s ++ 46 :: e))) "upload" =
        (lead name ++ 46 :: e).rdropWhile isDotOrUnderscore := by
      have hfront' : ¬ (subUnsafe false s).dropWhile isDotOrUnderscore = [] := hlead ▸ hfront
      have hhead := List.head_dropWhile_not isDotOrUnderscore hfront'
      rw [stripDots, dropWhile_subUnsafe hsafe, if_neg hfront', hlead, orElse, if_neg]
      rw [List.rdropWhile_eq_nil_iff]
      intro hall
      rw [hall _ (List.mem_append_left _ (List.head_mem hfront'))] at hhead
      exact absurd hhead (by decide)
    rw [hcleaned]
    exact isSuffix_cleaned_iff hfront he hdot

/-- The last component has a suffix of at most 20 characters, all of which stay. -/
structure ShortSuffix (name : Str) : Prop where
  nonempty : suffix (pathName name) ≠ []
  short : (suffix (pathName name)).length ≤ 20
  safe : ∀ c ∈ suffix (pathName name), isSafeChar c

/-- Every name is made safe, and it keeps its suffix just when what is left of the
stem makes room for it. -/
theorem safe_keeping_suffix_iff (name : Str) :
    Safe (safeFilename name) ∧
        (ShortSuffix name → suffix (pathName (safeFilename name)) = suffix (pathName name)) ↔
      (ShortSuffix name →
        Fits (lead name) (suffix (pathName name)) ∨
          ByChance (lead name) (suffix (pathName name))) := by
  have hkeeps (hshort : ShortSuffix name) :
      suffix (pathName (safeFilename name)) = suffix (pathName name) ↔
        Fits (lead name) (suffix (pathName name)) ∨
          ByChance (lead name) (suffix (pathName name)) := by
    obtain ⟨s, e, hname, hs, he, hdot⟩ := exists_of_suffix hshort.nonempty
    have hsuffix : suffix (pathName name) = 46 :: e := hname ▸ suffix_append hs he hdot
    have hsafe := hshort.safe
    rw [hsuffix] at hsafe
    rw [pathName_eq_self (safe_safeFilename name), hsuffix]
    exact suffix_safeFilename_iff hname hs he hdot (List.forall_mem_cons.mp hsafe).2
  constructor
  · rintro ⟨-, h⟩ hshort
    exact (hkeeps hshort).mp (h hshort)
  · intro h
    exact ⟨safe_safeFilename name, fun hshort => (hkeeps hshort).mpr (h hshort)⟩

/-- A Japanese name for a PDF file becomes "pdf", without a suffix. -/
theorem suffix_lost :
    ¬ ∀ name : Str, Safe (safeFilename name) ∧
      (ShortSuffix name → suffix (pathName (safeFilename name)) = suffix (pathName name)) := by
  intro h
  have hlost := (h [26085, 26412, 46, 112, 100, 102]).2 ⟨by decide, by decide, by decide⟩
  exact absurd hlost (by decide)

end AgentWeb.FileNames
