import AgentWeb.OnLine
import Mathlib.Data.Finset.Card
import Mathlib.Data.Finset.Union
import Mathlib.Data.Int.Range

namespace AgentWeb.SeqCount

open OnLine PyFloat PyNumber PyJson Protocol

/-- The counters of `SeqTracker` when every `seq` is an integer. -/
structure Tally where
  last : Int
  gaps : Int
  reordered : Nat

def Tally.initial : Tally := ⟨0, 0, 0⟩

def Tally.check (t : Tally) (seq : Int) : Tally :=
  let expected := t.last + 1
  if seq = expected then { t with last := seq }
  else if seq ≤ t.last then { t with reordered := t.reordered + 1 }
  else { t with gaps := t.gaps + (seq - expected), last := seq }

def Tally.tracker (t : Tally) : SeqTracker := ⟨.int t.last, .int t.gaps, t.reordered⟩

def feed (seqs : List Int) : Except Exc SeqTracker :=
  seqs.foldlM (fun t seq => (t.check (.int seq)).map Prod.fst) .initial

def tally (seqs : List Int) : Tally := seqs.foldl Tally.check .initial

theorem check_tracker (t : Tally) (seq : Int) :
    (t.tracker.check (.int seq)).map Prod.fst = .ok (t.check seq).tracker := by
  have hcheck : t.tracker.check (.int seq) =
      if eq (.int seq) (.int (t.last + 1)) then .ok (⟨.int seq, .int t.gaps, t.reordered⟩, false)
      else if le (.int seq) (.int t.last) then
        .ok (⟨.int t.last, .int t.gaps, t.reordered + 1⟩, true)
      else .ok (⟨.int seq, .int (t.gaps + (seq - (t.last + 1))), t.reordered⟩, true) := rfl
  have heq : eq (.int seq) (.int (t.last + 1)) = decide (seq = t.last + 1) := by
    rw [Bool.eq_iff_iff]
    simp only [PyNumber.eq, le, Bool.and_eq_true, decide_eq_true_eq]
    exact le_antisymm_iff.symm
  have hle : le (.int seq) (.int t.last) = decide (seq ≤ t.last) := rfl
  rw [hcheck, heq, hle, Tally.check]
  by_cases hnext : seq = t.last + 1
  · simp [hnext, Tally.tracker, Except.map]
  · by_cases hlate : seq ≤ t.last <;> simp [hnext, hlate, Tally.tracker, Except.map]

theorem foldlM_tracker (seqs : List Int) (t : Tally) :
    seqs.foldlM (fun t seq => (t.check (.int seq)).map Prod.fst) t.tracker =
      .ok (seqs.foldl Tally.check t).tracker := by
  induction seqs generalizing t with
  | nil => rfl
  | cons seq seqs ih =>
      rw [List.foldlM_cons, check_tracker]
      exact ih (t.check seq)

theorem feed_eq (seqs : List Int) : feed seqs = .ok (tally seqs).tracker :=
  foldlM_tracker seqs .initial

theorem tally_snoc (seqs : List Int) (seq : Int) :
    tally (seqs ++ [seq]) = (tally seqs).check seq := by
  rw [tally, List.foldl_append]
  rfl

theorem check_late {t : Tally} {seq : Int} (h : seq ≤ t.last) :
    t.check seq = { t with reordered := t.reordered + 1 } := by
  have hne : seq ≠ t.last + 1 := by omega
  simp [Tally.check, hne, h]

theorem check_ahead {t : Tally} {seq : Int} (h : t.last < seq) :
    t.check seq = ⟨seq, t.gaps + (seq - (t.last + 1)), t.reordered⟩ := by
  have hle : ¬ seq ≤ t.last := by omega
  by_cases hnext : seq = t.last + 1
  · simp [Tally.check, hnext]
  · simp [Tally.check, hnext, hle]

theorem check_last (t : Tally) (seq : Int) : (t.check seq).last = max t.last seq := by
  rcases le_or_gt seq t.last with h | h
  · rw [check_late h, max_eq_left h]
  · rw [check_ahead h, max_eq_right h.le]

/-- Check number `i` moved `last`. -/
def Advanced (seqs : List Int) (i : Nat) : Prop :=
  (tally (seqs.take i)).last < (tally (seqs.take (i + 1))).last

instance (seqs : List Int) (i : Nat) : Decidable (Advanced seqs i) :=
  inferInstanceAs (Decidable (_ < _))

def advances (seqs : List Int) : Nat := (List.range seqs.length).countP fun i => Advanced seqs i

def others (seqs : List Int) : Nat := (List.range seqs.length).countP fun i => ¬ Advanced seqs i

/-- The integers from `low` on, below `high`. -/
def interval (low high : Int) : Finset Int := (Int.range low high).toFinset

/-- The values check number `i` jumps over. -/
def jump (seqs : List Int) (i : Nat) : Finset Int :=
  interval ((tally (seqs.take i)).last + 1) (seqs.getD i 0)

def skipped (seqs : List Int) : Finset Int := (Finset.range seqs.length).biUnion (jump seqs)

def unseen (seqs : List Int) : Finset Int :=
  (interval 1 ((tally seqs).last + 1)).filter (· ∉ seqs)

/-- Check number `i` is counted as reordered and brings, for the first time, a
value that was jumped over. -/
def FillsGap (seqs : List Int) (i : Nat) : Prop :=
  ∃ seq, seqs[i]? = some seq ∧ ¬ Advanced seqs i ∧ seq ∈ skipped (seqs.take i) ∧
    seq ∉ seqs.take i

theorem mem_interval {low high x : Int} : x ∈ interval low high ↔ low ≤ x ∧ x < high := by
  rw [interval, List.mem_toFinset, Int.mem_range_iff]

theorem card_interval (low high : Int) : (interval low high).card = (high - low).toNat := by
  have hnodup : (Int.range low high).Nodup := by
    refine List.nodup_range.map fun i j hij => ?_
    omega
  rw [interval, List.toFinset_card_of_nodup hnodup, Int.range, List.length_map, List.length_range]

section Snoc

variable (seqs : List Int) (seq : Int)

theorem take_snoc {i : Nat} (hi : i < seqs.length) : (seqs ++ [seq]).take i = seqs.take i :=
  List.take_append_of_le_length hi.le

theorem advanced_snoc {i : Nat} (hi : i < seqs.length) :
    Advanced (seqs ++ [seq]) i ↔ Advanced seqs i := by
  rw [Advanced, Advanced, take_snoc seqs seq hi, List.take_append_of_le_length hi]

theorem advanced_length : Advanced (seqs ++ [seq]) seqs.length ↔ (tally seqs).last < seq := by
  have htake : (seqs ++ [seq]).take (seqs.length + 1) = seqs ++ [seq] := by simp
  rw [Advanced, List.take_left, htake, tally_snoc, check_last, lt_max_iff]
  exact ⟨fun h => h.resolve_left (lt_irrefl _), .inr⟩

theorem advances_snoc :
    advances (seqs ++ [seq]) = advances seqs + if (tally seqs).last < seq then 1 else 0 := by
  rw [advances, List.length_append, List.length_singleton, List.range_succ, List.countP_append,
    List.countP_singleton]
  congr 1
  · apply List.countP_congr
    intro i hi
    simp [advanced_snoc seqs seq (List.mem_range.mp hi)]
  · simp [advanced_length]

theorem jump_snoc {i : Nat} (hi : i < seqs.length) : jump (seqs ++ [seq]) i = jump seqs i := by
  rw [jump, jump, take_snoc seqs seq hi, List.getD_eq_getElem?_getD, List.getD_eq_getElem?_getD,
    List.getElem?_append_left hi]

theorem skipped_snoc :
    skipped (seqs ++ [seq]) = skipped seqs ∪ interval ((tally seqs).last + 1) seq := by
  have hlast : jump (seqs ++ [seq]) seqs.length = interval ((tally seqs).last + 1) seq := by
    simp [jump]
  have hearlier : (Finset.range seqs.length).biUnion (jump (seqs ++ [seq])) = skipped seqs :=
    Finset.biUnion_congr rfl fun i hi => jump_snoc seqs seq (Finset.mem_range.mp hi)
  rw [skipped, List.length_append, List.length_singleton, Finset.range_add_one,
    Finset.biUnion_insert, hlast, hearlier, Finset.union_comm]

theorem fillsGap_snoc {i : Nat} (hi : i < seqs.length) :
    FillsGap (seqs ++ [seq]) i ↔ FillsGap seqs i := by
  rw [FillsGap, FillsGap, List.getElem?_append_left hi, advanced_snoc seqs seq hi,
    take_snoc seqs seq hi]

theorem fillsGap_length : FillsGap (seqs ++ [seq]) seqs.length ↔
    seq ≤ (tally seqs).last ∧ seq ∈ skipped seqs ∧ seq ∉ seqs := by
  simp [FillsGap, advanced_length]

end Snoc

theorem last_eq (seqs : List Int) : IsGreatest {x | x = 0 ∨ x ∈ seqs} (tally seqs).last := by
  induction seqs using List.reverseRecOn with
  | nil => exact ⟨.inl rfl, by simp [upperBounds, tally, Tally.initial]⟩
  | append_singleton seqs seq ih =>
      have hinsert : {x | x = 0 ∨ x ∈ seqs ++ [seq]} = insert seq {x | x = 0 ∨ x ∈ seqs} := by
        ext x
        simp only [Set.mem_ofPred_eq, Set.mem_insert_iff, List.mem_append, List.mem_singleton]
        tauto
      rw [hinsert, tally_snoc, check_last, max_comm]
      exact ih.insert seq

theorem last_nonneg (seqs : List Int) : 0 ≤ (tally seqs).last := (last_eq seqs).2 (.inl rfl)

theorem le_last_of_mem {seqs : List Int} {x : Int} (h : x ∈ seqs) : x ≤ (tally seqs).last :=
  (last_eq seqs).2 (.inr h)

theorem mem_skipped_bounds {seqs : List Int} {x : Int} (h : x ∈ skipped seqs) :
    1 ≤ x ∧ x < (tally seqs).last := by
  induction seqs using List.reverseRecOn with
  | nil => simp [skipped] at h
  | append_singleton seqs seq ih =>
      have hnonneg := last_nonneg seqs
      rw [skipped_snoc, Finset.mem_union, mem_interval] at h
      rw [tally_snoc, check_last]
      rcases h with h | ⟨hlow, hhigh⟩
      · exact ⟨(ih h).1, lt_max_of_lt_left (ih h).2⟩
      · exact ⟨by omega, lt_max_of_lt_right hhigh⟩

theorem card_skipped (seqs : List Int) : ((skipped seqs).card : Int) = (tally seqs).gaps := by
  induction seqs using List.reverseRecOn with
  | nil => rfl
  | append_singleton seqs seq ih =>
      have hdisj : Disjoint (skipped seqs) (interval ((tally seqs).last + 1) seq) := by
        rw [Finset.disjoint_left]
        intro x hx hjump
        have hlow := (mem_skipped_bounds hx).2
        have hhigh := (mem_interval.mp hjump).1
        omega
      rw [skipped_snoc, Finset.card_union_of_disjoint hdisj, card_interval, tally_snoc]
      rcases le_or_gt seq (tally seqs).last with h | h
      · rw [check_late h]
        dsimp only
        omega
      · rw [check_ahead h]
        dsimp only
        omega

theorem skipped_or_seen {seqs : List Int} {x : Int} (hlow : 1 ≤ x)
    (hhigh : x ≤ (tally seqs).last) : x ∈ skipped seqs ∨ x ∈ seqs := by
  induction seqs using List.reverseRecOn with
  | nil =>
      have hzero : (tally []).last = 0 := rfl
      omega
  | append_singleton seqs seq ih =>
      rw [tally_snoc, check_last, le_max_iff] at hhigh
      rw [skipped_snoc, Finset.mem_union, mem_interval, List.mem_append, List.mem_singleton]
      by_cases hold : x ≤ (tally seqs).last
      · rcases ih hold with h | h
        · exact .inl (.inl h)
        · exact .inr (.inl h)
      · have hseq := hhigh.resolve_left hold
        rcases eq_or_lt_of_le hseq with h | h
        · exact .inr (.inr h)
        · exact .inl (.inr ⟨by omega, h⟩)

theorem unseen_eq (seqs : List Int) : unseen seqs = (skipped seqs).filter (· ∉ seqs) := by
  ext x
  rw [unseen, Finset.mem_filter, Finset.mem_filter, mem_interval]
  refine and_congr_left fun hx => ⟨fun h => ?_, fun h => ?_⟩
  · exact (skipped_or_seen h.1 (Int.lt_add_one_iff.mp h.2)).resolve_right hx
  · exact ⟨(mem_skipped_bounds h).1, Int.lt_add_one_iff.mpr (mem_skipped_bounds h).2.le⟩

theorem exists_fillsGap_iff (seqs : List Int) :
    (∃ i, FillsGap seqs i) ↔ ∃ x ∈ skipped seqs, x ∈ seqs := by
  induction seqs using List.reverseRecOn with
  | nil => simp [skipped, FillsGap]
  | append_singleton seqs seq ih =>
      constructor
      · rintro ⟨i, hi⟩
        rcases Nat.lt_or_ge i seqs.length with hlt | hge
        · obtain ⟨x, hx, hmem⟩ := ih.mp ⟨i, (fillsGap_snoc seqs seq hlt).mp hi⟩
          exact ⟨x, by simp [skipped_snoc, hx], by simp [hmem]⟩
        · have hlast : i = seqs.length := by
            obtain ⟨x, hx, -⟩ := hi
            have hlt := (List.getElem?_eq_some_iff.mp hx).1
            rw [List.length_append, List.length_singleton] at hlt
            omega
          subst hlast
          have hfills := (fillsGap_length seqs seq).mp hi
          exact ⟨seq, by simp [skipped_snoc, hfills.2.1], by simp⟩
      · rintro ⟨x, hx, hmem⟩
        rw [skipped_snoc, Finset.mem_union, mem_interval] at hx
        rw [List.mem_append, List.mem_singleton] at hmem
        by_cases hseen : ∃ y ∈ skipped seqs, y ∈ seqs
        · obtain ⟨i, hi⟩ := ih.mpr hseen
          have hlt : i < seqs.length := by
            obtain ⟨y, hy, -⟩ := hi
            exact (List.getElem?_eq_some_iff.mp hy).1
          exact ⟨i, (fillsGap_snoc seqs seq hlt).mpr hi⟩
        · have hold : x ∈ skipped seqs → x ∉ seqs := fun h hs => hseen ⟨x, h, hs⟩
          refine ⟨seqs.length, (fillsGap_length seqs seq).mpr ?_⟩
          rcases hx with hx | ⟨hlow, hhigh⟩
          · have hxs : x = seq := hmem.resolve_left (hold hx)
            subst hxs
            exact ⟨(mem_skipped_bounds hx).2.le, hx, hold hx⟩
          · rcases hmem with hmem | rfl
            · have hle := le_last_of_mem hmem
              omega
            · omega

theorem gaps_add_advances (seqs : List Int) :
    (tally seqs).gaps + advances seqs = (tally seqs).last := by
  induction seqs using List.reverseRecOn with
  | nil => rfl
  | append_singleton seqs seq ih =>
      rw [tally_snoc, advances_snoc]
      rcases le_or_gt seq (tally seqs).last with h | h
      · rw [check_late h, if_neg (by omega)]
        exact ih
      · rw [check_ahead h, if_pos h]
        push_cast
        omega

theorem reordered_add_advances (seqs : List Int) :
    (tally seqs).reordered + advances seqs = seqs.length := by
  induction seqs using List.reverseRecOn with
  | nil => rfl
  | append_singleton seqs seq ih =>
      rw [tally_snoc, advances_snoc, List.length_append, List.length_singleton]
      rcases le_or_gt seq (tally seqs).last with h | h
      · rw [check_late h, if_neg (by omega)]
        dsimp only
        omega
      · rw [check_ahead h, if_pos h]
        dsimp only
        omega

theorem reordered_eq (seqs : List Int) : (tally seqs).reordered = others seqs := by
  have htotal := reordered_add_advances seqs
  have hsplit := List.length_eq_countP_add_countP (fun i => decide (Advanced seqs i))
    (l := List.range seqs.length)
  have hothers : others seqs =
      (List.range seqs.length).countP fun i => decide ¬ decide (Advanced seqs i) = true := by
    simp [others]
  rw [List.length_range] at hsplit
  rw [advances] at htotal
  rw [hothers]
  omega

theorem unseen_card_le (seqs : List Int) : ((unseen seqs).card : Int) ≤ (tally seqs).gaps := by
  rw [unseen_eq, ← card_skipped]
  exact Int.ofNat_le.mpr (Finset.card_filter_le _ _)

theorem unseen_card_eq_iff (seqs : List Int) :
    ((unseen seqs).card : Int) = (tally seqs).gaps ↔ ¬ ∃ i, FillsGap seqs i := by
  rw [unseen_eq, ← card_skipped, Int.ofNat_inj, Finset.card_filter_eq_iff, exists_fillsGap_iff]
  simp

/-- `last` is the greatest line seen, each line is counted once, and `gaps` counts
the missing lines except for those that came late. -/
theorem accounting_exact (seqs : List Int) :
    ∃ t : Tally, feed seqs = .ok t.tracker ∧ IsGreatest {x | x = 0 ∨ x ∈ seqs} t.last ∧
      t.gaps + advances seqs = t.last ∧ t.reordered = others seqs ∧
      (((interval 1 (t.last + 1)).filter (· ∉ seqs)).card : Int) ≤ t.gaps ∧
      ((((interval 1 (t.last + 1)).filter (· ∉ seqs)).card : Int) = t.gaps ↔
        ¬ ∃ i, FillsGap seqs i) :=
  ⟨tally seqs, feed_eq seqs, last_eq seqs, gaps_add_advances seqs, reordered_eq seqs,
    unseen_card_le seqs, unseen_card_eq_iff seqs⟩

end AgentWeb.SeqCount
