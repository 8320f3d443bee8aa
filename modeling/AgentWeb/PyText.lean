import Mathlib.Data.List.DropRight
import Mathlib.Data.List.TakeWhile

namespace AgentWeb.PyText

/-- A text is its list of code points. JSON escapes can spell a lone
surrogate, so the points are not restricted to scalar values. -/
abbrev Str := List Nat

def str (s : String) : Str := s.toList.map Char.toNat

instance : Coe String Str := ⟨str⟩

@[simp] theorem str_inj (a b : String) : str a = str b ↔ a = b := by
  simp only [str]
  rw [List.map_inj_right (fun _ _ h => Char.toNat_inj.mp h)]
  exact String.toList_inj

/-- The characters removed by `str.strip()`. -/
def isSpace (c : Nat) : Bool :=
  (9 ≤ c && c ≤ 13) || (28 ≤ c && c ≤ 32) || c == 0x85 || c == 0xA0 || c == 0x1680 ||
    (0x2000 ≤ c && c ≤ 0x200A) || c == 0x2028 || c == 0x2029 || c == 0x202F ||
    c == 0x205F || c == 0x3000

/-- The characters at which `str.splitlines()` ends a line. -/
def isBoundary (c : Nat) : Bool :=
  (10 ≤ c && c ≤ 13) || (28 ≤ c && c ≤ 30) || c == 0x85 || c == 0x2028 || c == 0x2029

theorem boundary_space {c : Nat} (h : isBoundary c) : isSpace c := by
  simp only [isBoundary, isSpace, Bool.or_eq_true, Bool.and_eq_true, decide_eq_true_eq,
    beq_iff_eq] at h ⊢
  omega

def rstrip (s : Str) : Str := s.rdropWhile isSpace

def strip (s : Str) : Str := rstrip (s.dropWhile isSpace)

def consHead (c : Nat) : List Str → List Str
  | [] => [[c]]
  | l :: ls => (c :: l) :: ls

/-- `str.splitlines()` without the line ends. A carriage return directly
before a newline counts as one line end. -/
def splitlines : Str → List Str
  | [] => []
  | 13 :: 10 :: rest => [] :: splitlines rest
  | c :: rest => if isBoundary c then [] :: splitlines rest else consHead c (splitlines rest)

theorem splitlines_boundary {c : Nat} (hc : isBoundary c) (s : Str) :
    splitlines (c :: s) = [] :: splitlines (if c = 13 ∧ s.head? = some 10 then s.tail else s) := by
  by_cases h : c = 13 ∧ s.head? = some 10
  · obtain ⟨rfl, hs⟩ := h
    cases s with
    | nil => simp at hs
    | cons d s =>
        simp only [List.head?_cons, Option.some.injEq] at hs
        subst hs
        simp [splitlines]
  · rw [if_neg h]
    cases s with
    | nil => simp [splitlines, hc]
    | cons d s =>
        have hd : ¬ (c = 13 ∧ d = 10) := by simpa using h
        rw [splitlines, if_pos hc]
        intro r hr hs
        exact hd ⟨hr, (List.cons.inj hs).1⟩

theorem splitlines_inner {c : Nat} (hc : isBoundary c = false) (s : Str) :
    splitlines (c :: s) = consHead c (splitlines s) := by
  rw [splitlines]
  · simp [hc]
  · rintro r rfl rfl
    simp [isBoundary] at hc

theorem splitlines_plain (u : Str) (hu : ∀ c ∈ u, isBoundary c = false) :
    splitlines u = if u = [] then [] else [u] := by
  induction u with
  | nil => simp [splitlines]
  | cons c u ih =>
      rw [splitlines_inner (hu c (by simp)), ih (fun d hd => hu d (by simp [hd]))]
      cases u <;> simp [consHead]

theorem splitlines_append_boundary (u : Str) (hu : ∀ c ∈ u, isBoundary c = false)
    {c : Nat} (hc : isBoundary c) (v : Str) :
    splitlines (u ++ c :: v) =
      u :: splitlines (if c = 13 ∧ v.head? = some 10 then v.tail else v) := by
  induction u with
  | nil => simpa using splitlines_boundary hc v
  | cons d u ih =>
      rw [List.cons_append, splitlines_inner (hu d (by simp)), ih (fun e he => hu e (by simp [he]))]
      rfl

theorem splitlines_eq_nil {s : Str} : splitlines s = [] ↔ s = [] := by
  constructor
  · intro h
    cases s with
    | nil => rfl
    | cons c s =>
        cases hc : isBoundary c with
        | false =>
            rw [splitlines_inner hc] at h
            cases hs : splitlines s <;> simp [hs, consHead] at h
        | true => simp [splitlines_boundary hc] at h
  · rintro rfl
    rfl

theorem splitlines_newline (l rest : Str) :
    splitlines (l ++ 10 :: rest) = splitlines (l ++ [10]) ++ splitlines rest := by
  induction l using splitlines.induct with
  | case1 => simp [splitlines, isBoundary]
  | case2 l ih => simp [splitlines, ih]
  | case3 c l hne hc ih =>
      cases l with
      | nil => by_cases h : c = 13 <;> simp_all [splitlines, splitlines_boundary, isBoundary]
      | cons d l =>
          have hd : ¬ (c = 13 ∧ d = 10) := by
            rintro ⟨rfl, rfl⟩
            exact hne l rfl rfl
          simp only [List.cons_append, splitlines_boundary hc, List.head?_cons, Option.some.injEq, hd,
            if_false]
          simpa using ih
  | case4 c l hne hc ih =>
      have hc' : isBoundary c = false := by simpa using hc
      simp only [List.cons_append, splitlines_inner hc', ih]
      cases hs : splitlines (l ++ [10]) with
      | nil => simp [splitlines_eq_nil] at hs
      | cons p ps => rfl

theorem splitlines_joined (ls : List Str) :
    splitlines (ls.flatMap (· ++ [10])) = ls.flatMap (fun l => splitlines (l ++ [10])) := by
  induction ls with
  | nil => rfl
  | cons l ls ih =>
      rw [List.flatMap_cons, List.flatMap_cons, List.append_assoc, List.singleton_append,
        splitlines_newline, ih]

theorem rstrip_append_space (s t : Str) (ht : ∀ c ∈ t, isSpace c) : rstrip (s ++ t) = rstrip s := by
  induction t using List.reverseRecOn with
  | nil => simp
  | append_singleton t c ih =>
      rw [← List.append_assoc, rstrip, List.rdropWhile_concat, if_pos (ht c (by simp))]
      exact ih (fun d hd => ht d (by simp [hd]))

theorem rstrip_ne_nil {s : Str} {c : Nat} (hc : c ∈ s) (hs : isSpace c = false) : rstrip s ≠ [] := by
  intro h
  have := List.rdropWhile_eq_nil_iff.mp h c hc
  simp [hs] at this

theorem rstrip_strip (s : Str) : rstrip (strip s) = strip s := List.rdropWhile_idempotent ..

theorem strip_space_cons {c : Nat} (hc : isSpace c) (s : Str) : strip (c :: s) = strip s := by
  simp [strip, hc]

theorem strip_ink_cons {c : Nat} (hc : isSpace c = false) (s : Str) :
    strip (c :: s) = rstrip (c :: s) := by
  simp [strip, hc]

theorem strip_space (s : Str) (hs : ∀ c ∈ s, isSpace c) : strip s = [] := by
  induction s with
  | nil => rfl
  | cons c s ih => rw [strip_space_cons (hs c (by simp)), ih (fun d hd => hs d (by simp [hd]))]

theorem strip_append_space (s t : Str) (ht : ∀ c ∈ t, isSpace c) : strip (s ++ t) = strip s := by
  induction s with
  | nil => exact strip_space t ht
  | cons c s ih =>
      cases hc : isSpace c with
      | true => rw [List.cons_append, strip_space_cons hc, strip_space_cons hc, ih]
      | false =>
          rw [List.cons_append, strip_ink_cons hc, strip_ink_cons hc, ← List.cons_append,
            rstrip_append_space _ _ ht]

theorem strip_space_append (s t : Str) (hs : ∀ c ∈ s, isSpace c) : strip (s ++ t) = strip t := by
  induction s with
  | nil => rfl
  | cons c s ih =>
      rw [List.cons_append, strip_space_cons (hs c (by simp)), ih (fun d hd => hs d (by simp [hd]))]

theorem strip_decompose (s : Str) :
    ∃ a b, s = a ++ strip s ++ b ∧ (∀ c ∈ a, isSpace c) ∧ (∀ c ∈ b, isSpace c) ∧
      (∀ c, (strip s).head? = some c → isSpace c = false) ∧
      ∀ c, (strip s).getLast? = some c → isSpace c = false := by
  refine ⟨s.takeWhile isSpace, (s.dropWhile isSpace).rtakeWhile isSpace, ?_, ?_, ?_, ?_, ?_⟩
  · rw [List.append_assoc, strip, rstrip, List.rdropWhile_append_rtakeWhile]
    exact (List.takeWhile_append_dropWhile).symm
  · exact fun c hc => List.mem_takeWhile_imp hc
  · exact fun c hc => List.mem_rtakeWhile_imp hc
  · intro c hc
    have hd := List.head?_dropWhile_not isSpace s
    obtain ⟨t, ht⟩ := List.rdropWhile_prefix (p := isSpace) (s.dropWhile isSpace)
    rw [← ht, List.head?_append] at hd
    simpa [strip, rstrip, show (List.rdropWhile isSpace (s.dropWhile isSpace)).head? = some c from hc]
      using hd
  · intro c hc
    have hne : strip s ≠ [] := by
      rintro he
      simp [he] at hc
    have hl := List.rdropWhile_last_not isSpace (s.dropWhile isSpace) hne
    rw [List.getLast?_eq_getLast_of_ne_nil hne, Option.some.injEq] at hc
    simpa [← hc, strip, rstrip] using hl

def nonblankLines (s : Str) : List Str := ((splitlines s).map strip).filter (· ≠ [])

theorem nonblankLines_boundary {c : Nat} (hc : isBoundary c) (s : Str) :
    nonblankLines (c :: s) =
      nonblankLines (if c = 13 ∧ s.head? = some 10 then s.tail else s) := by
  simp [nonblankLines, splitlines_boundary hc, strip_space]

theorem nonblankLines_space {c : Nat} (hc : isSpace c) (s : Str) :
    nonblankLines (c :: s) = nonblankLines s := by
  cases hb : isBoundary c with
  | true =>
      rw [nonblankLines_boundary hb]
      split
      next h =>
        cases s with
        | nil => simp at h
        | cons d s =>
            obtain rfl : d = 10 := by simpa using h.2
            rw [nonblankLines_boundary (by decide)]
            rfl
      next => rfl
  | false =>
      rw [nonblankLines, splitlines_inner hb, nonblankLines]
      cases splitlines s with
      | nil => simp [consHead, strip_space_cons hc, strip_space]
      | cons l ls => simp [consHead, strip_space_cons hc]

theorem nonblankLines_spaces {a : Str} (ha : ∀ c ∈ a, isSpace c) (s : Str) :
    nonblankLines (a ++ s) = nonblankLines s := by
  induction a with
  | nil => rfl
  | cons c a ih =>
      rw [List.cons_append, nonblankLines_space (ha c (by simp)), ih (fun d hd => ha d (by simp [hd]))]

theorem nonblankLines_blank {a : Str} (ha : ∀ c ∈ a, isSpace c) : nonblankLines a = [] := by
  have h := nonblankLines_spaces ha []
  rwa [List.append_nil] at h

theorem nonblankLines_ink {s : Str} {c : Nat} (hc : c ∈ s) (hi : isSpace c = false) :
    nonblankLines s ≠ [] := by
  induction s with
  | nil => simp at hc
  | cons d s ih =>
      cases hd : isSpace d with
      | true =>
          rw [nonblankLines_space hd]
          refine ih ((List.mem_cons.mp hc).resolve_left ?_)
          rintro rfl
          simp [hi] at hd
      | false =>
          have hb : isBoundary d = false := by
            cases hb : isBoundary d with
            | false => rfl
            | true => simp [boundary_space hb] at hd
          have hp (l : Str) : strip (d :: l) ≠ [] := by
            rw [strip_ink_cons hd]
            exact rstrip_ne_nil List.mem_cons_self hd
          rw [nonblankLines, splitlines_inner hb]
          cases splitlines s <;> simp [consHead, hp]

theorem nonblankLines_whole {s : Str} (hs : ∀ c ∈ strip s, isBoundary c = false) :
    nonblankLines s = if strip s = [] then [] else [strip s] := by
  obtain ⟨a, b, hab, ha, hb, hhead, -⟩ := strip_decompose s
  cases hk : strip s with
  | nil =>
      rw [hk] at hab
      rw [hab, if_pos rfl]
      exact nonblankLines_blank (by simpa [or_imp, forall_and] using ⟨ha, hb⟩)
  | cons k ks =>
      have hink : isSpace k = false := hhead k (by simp [hk])
      rw [if_neg (by simp)]
      conv_lhs => rw [hab, List.append_assoc, nonblankLines_spaces ha, hk]
      rw [hk] at hs
      have hcut : b.takeWhile (fun c => !isBoundary c) ++ b.dropWhile (fun c => !isBoundary c) = b :=
        List.takeWhile_append_dropWhile
      have hplain : ∀ c ∈ k :: ks ++ b.takeWhile (fun c => !isBoundary c), isBoundary c = false := by
        intro c hc
        rcases List.mem_append.mp hc with hc | hc
        · exact hs c hc
        · simpa using List.mem_takeWhile_imp hc
      have hline : strip (k :: ks ++ b.takeWhile (fun c => !isBoundary c)) = k :: ks := by
        have hr : rstrip (k :: ks) = k :: ks := by rw [← hk, rstrip_strip]
        rw [List.cons_append, strip_ink_cons hink, ← List.cons_append, rstrip_append_space, hr]
        exact fun c hc => hb c (List.takeWhile_subset _ hc)
      have hfirst (ls : List Str) (hls : (ls.map strip).filter (· ≠ []) = []) :
          (((k :: ks ++ b.takeWhile (fun c => !isBoundary c)) :: ls).map strip).filter (· ≠ []) =
            [k :: ks] := by
        rw [List.map_cons, hline, List.filter_cons_of_pos (by simp), hls]
      rw [nonblankLines, ← hcut, ← List.append_assoc]
      cases hrest : b.dropWhile (fun c => !isBoundary c) with
      | nil =>
          rw [List.append_nil, splitlines_plain _ hplain, if_neg (by simp)]
          exact hfirst [] rfl
      | cons c e =>
          have hc : isBoundary c := by
            have h := List.head?_dropWhile_not (fun c => !isBoundary c) b
            simpa [hrest] using h
          rw [splitlines_append_boundary _ hplain hc]
          refine hfirst _ (nonblankLines_blank fun d hd =>
            hb d (List.dropWhile_subset (fun c => !isBoundary c) ?_))
          rw [hrest]
          split at hd
          · exact List.mem_cons_of_mem _ (List.mem_of_mem_tail hd)
          · exact List.mem_cons_of_mem _ hd

theorem nonblankLines_broken {s : Str} (hs : ∃ c ∈ strip s, isBoundary c) :
    2 ≤ (nonblankLines s).length := by
  obtain ⟨a, b, hab, ha, -, hhead, hlast⟩ := strip_decompose s
  obtain ⟨c, hc, hb⟩ := hs
  have hcut : (strip s).takeWhile (fun c => !isBoundary c) ++
      (strip s).dropWhile (fun c => !isBoundary c) = strip s := List.takeWhile_append_dropWhile
  cases hrest : (strip s).dropWhile (fun c => !isBoundary c) with
  | nil => simpa [hb] using List.dropWhile_eq_nil_iff.mp hrest c hc
  | cons d v =>
      have hd : isBoundary d := by
        have h := List.head?_dropWhile_not (fun c => !isBoundary c) (strip s)
        simpa [hrest] using h
      rw [hrest] at hcut
      generalize hu : (strip s).takeWhile (fun c => !isBoundary c) = u at hcut
      have hplain : ∀ c ∈ u, isBoundary c = false := by
        intro c hc
        rw [← hu] at hc
        simpa using List.mem_takeWhile_imp hc
      have hfirst : strip u ≠ [] := by
        cases u with
        | nil =>
            have := hhead d (by rw [← hcut]; rfl)
            simp [boundary_space hd] at this
        | cons k u =>
            have hk : isSpace k = false := hhead k (by rw [← hcut]; rfl)
            rw [strip_ink_cons hk]
            exact rstrip_ne_nil List.mem_cons_self hk
      have hink : ∃ e ∈ v, isSpace e = false := by
        cases hv : v.getLast? with
        | none =>
            rw [List.getLast?_eq_none_iff] at hv
            have := hlast d (by rw [← hcut, hv]; simp)
            simp [boundary_space hd] at this
        | some e =>
            refine ⟨e, List.mem_of_getLast? hv, hlast e ?_⟩
            rw [← hcut, List.getLast?_append, List.getLast?_cons, hv]
            simp
      obtain ⟨e, he, hink⟩ := hink
      rw [hab, List.append_assoc, nonblankLines_spaces ha, ← hcut, List.append_assoc,
        List.cons_append, nonblankLines, splitlines_append_boundary u hplain hd, List.map_cons,
        List.filter_cons_of_pos (by simpa using hfirst), List.length_cons]
      refine Nat.succ_le_succ (List.length_pos_of_ne_nil (nonblankLines_ink (c := e) ?_ hink))
      split
      next h =>
        cases v with
        | nil => simp at he
        | cons f v =>
            obtain rfl : f = 10 := by simpa using h.2
            rcases List.mem_cons.mp he with rfl | he
            · simp [isSpace] at hink
            · exact List.mem_append_left _ he
      next => exact List.mem_append_left _ he

end AgentWeb.PyText
