import AgentWeb.Replay

namespace AgentWeb.Resume

open PyText PyJson Protocol Replay

def numberOf (event : Dict) : Option Int :=
  match fetch event "seq" with
  | .int i => some i
  | _ => none

/-- Relayed events are numbered from 1 to `n` in order. An event of another
origin has no `seq` and is not a delta, and no delta was cut down to size. -/
structure Numbered (n : Nat) (events : List Dict) : Prop where
  numbers : events.filterMap numberOf = (List.range' 1 n).map Int.ofNat
  plain : ∀ e ∈ events, numberOf e = none → fetch e "seq" = .null ∧ isDelta e = false
  mergeable : ∀ e ∈ events, isDelta e → Mergeable e

/-- The events up to number `k`, then the rest. -/
def upTo (k : Nat) (events : List Dict) : List Dict :=
  events.rdropWhile fun e => numberOf e != some (k : Int)

def after (k : Nat) (events : List Dict) : List Dict :=
  events.rtakeWhile fun e => numberOf e != some (k : Int)

theorem upTo_append_after (k : Nat) (events : List Dict) :
    upTo k events ++ after k events = events := List.rdropWhile_append_rtakeWhile

theorem alreadySeen_of_number {event : Dict} {i : Int} (h : numberOf event = some i) {k : Nat}
    (hk : 0 < k) : alreadySeen event k = decide (i ≤ k) := by
  rw [numberOf] at h
  split at h
  next j hs =>
    cases h
    simp only [alreadySeen, hs]
    rw [if_neg (by omega)]
  next => simp at h

theorem alreadySeen_of_no_number {n : Nat} {events : List Dict} (hn : Numbered n events)
    {event : Dict} (he : event ∈ events) (h : numberOf event = none) (k : Int) :
    alreadySeen event k = false :=
  alreadySeen_null (hn.plain event he h).1 k

theorem number_pos {n : Nat} {events : List Dict} (hn : Numbered n events) {e : Dict} {i : Int}
    (he : e ∈ events) (hi : numberOf e = some i) : 0 < i := by
  have hmem : i ∈ events.filterMap numberOf := List.mem_filterMap.mpr ⟨e, he, hi⟩
  rw [hn.numbers, List.mem_map] at hmem
  obtain ⟨j, hj, rfl⟩ := hmem
  rw [List.mem_range'_1] at hj
  exact Int.natCast_pos.mpr (by omega)

theorem numbers_sorted {n : Nat} {events : List Dict} (hn : Numbered n events) :
    (events.filterMap numberOf).Pairwise (· < ·) := by
  rw [hn.numbers, List.pairwise_map]
  exact (List.pairwise_lt_range' ..).imp fun h => Int.ofNat_lt.mpr h

theorem exists_number {n : Nat} {events : List Dict} (hn : Numbered n events) {k : Nat}
    (hk : 0 < k) (hkn : k ≤ n) : ∃ e ∈ events, numberOf e = some (k : Int) := by
  have hmem : (k : Int) ∈ events.filterMap numberOf := by
    rw [hn.numbers, List.mem_map]
    exact ⟨k, List.mem_range'_1.mpr (by omega), rfl⟩
  simpa using hmem

theorem upTo_zero {n : Nat} {events : List Dict} (hn : Numbered n events) : upTo 0 events = [] := by
  rw [upTo, List.rdropWhile_eq_nil_iff]
  intro e he
  rw [bne_iff_ne]
  intro h
  exact (number_pos hn he h).ne' rfl

/-- The cut separates what a client at `k` has from what it has not, up to
events that carry no text. -/
theorem cut_spec {n : Nat} {events : List Dict} (hn : Numbered n events) {k : Nat} (hkn : k ≤ n) :
    (∀ e ∈ upTo k events, alreadySeen e k ∨ isDelta e = false) ∧
      ∀ e ∈ after k events, alreadySeen e k = false := by
  have happ := upTo_append_after k events
  rcases Nat.eq_zero_or_pos k with rfl | hk
  · rw [upTo_zero hn]
    exact ⟨by simp, fun e _ => rfl⟩
  · have hne : upTo k events ≠ [] := by
      obtain ⟨e, he, hek⟩ := exists_number hn hk hkn
      intro h
      have := List.rdropWhile_eq_nil_iff.mp h e he
      simp [hek] at this
    obtain ⟨init, last, hlast⟩ := List.eq_nil_or_concat (upTo k events) |>.resolve_left hne
    rw [List.concat_eq_append] at hlast
    have hlk : numberOf last = some (k : Int) := by
      have h := List.rdropWhile_last_not (fun e => numberOf e != some (k : Int)) events hne
      have hl : (upTo k events).getLast hne = last := by simp [hlast]
      simpa [show (events.rdropWhile _).getLast hne = last from hl] using h
    have hsorted := numbers_sorted hn
    rw [← happ, hlast] at hsorted
    have hone : [last].filterMap numberOf = [(k : Int)] := by simp [hlk]
    simp only [List.append_assoc, List.filterMap_append, hone, List.pairwise_append,
      List.mem_append, List.mem_singleton] at hsorted
    obtain ⟨-, ⟨-, -, hafter⟩, hinit⟩ := hsorted
    have hin : ∀ e, e ∈ upTo k events ∨ e ∈ after k events → e ∈ events := by
      intro e he
      rw [← happ]
      exact List.mem_append.mpr he
    refine ⟨fun e he => ?_, fun e he => ?_⟩
    · cases hi : numberOf e with
      | none => exact .inr (hn.plain e (hin e (.inl he)) hi).2
      | some i =>
          left
          rw [alreadySeen_of_number hi hk, decide_eq_true_eq]
          rw [hlast, List.mem_append, List.mem_singleton] at he
          rcases he with he | rfl
          · exact (hinit i (List.mem_filterMap.mpr ⟨e, he, hi⟩) k (.inl rfl)).le
          · rw [hlk, Option.some.injEq] at hi
            exact hi.ge
    · cases hi : numberOf e with
      | none => exact alreadySeen_of_no_number hn (hin e (.inr he)) hi k
      | some i =>
          rw [alreadySeen_of_number hi hk, decide_eq_false_iff_not, not_le]
          exact hafter k rfl i (List.mem_filterMap.mpr ⟨e, he, hi⟩)

section Interpreter

variable [Interpreter]

theorem textOfEvents_filter_seen {es : List Dict} {k : Int}
    (h : ∀ e ∈ es, alreadySeen e k ∨ isDelta e = false) :
    textOfEvents (es.filter (alreadySeen · k)) = textOfEvents es ∧
      textOfEvents (es.filter fun e => !alreadySeen e k) = [] := by
  induction es with
  | nil => exact ⟨rfl, rfl⟩
  | cons e es ih =>
      obtain ⟨ihs, ihu⟩ := ih fun d hd => h d (List.mem_cons_of_mem _ hd)
      cases hs : alreadySeen e k with
      | true =>
          refine ⟨?_, ?_⟩
          · simp only [List.filter_cons, hs, if_true, textOfEvents, List.flatMap_cons]
            exact congrArg _ ihs
          · simpa only [List.filter_cons, hs, Bool.not_true, Bool.false_eq_true, if_false] using ihu
      | false =>
          have ht : deltaText e = [] :=
            deltaText_of_not_isDelta ((h e (by simp)).resolve_left (by simp [hs]))
          refine ⟨?_, ?_⟩
          · simpa only [List.filter_cons, hs, Bool.false_eq_true, if_false, textOfEvents,
              List.flatMap_cons, ht, List.nil_append] using ihs
          · simpa only [List.filter_cons, hs, Bool.not_false, if_true, textOfEvents,
              List.flatMap_cons, ht, List.nil_append] using ihu

omit [Interpreter] in
theorem filter_unseen {es : List Dict} {k : Int} (h : ∀ e ∈ es, alreadySeen e k = false) :
    es.filter (fun e => !alreadySeen e k) = es ∧ es.filter (alreadySeen · k) = [] := by
  refine ⟨List.filter_eq_self.mpr fun e he => ?_, List.filter_eq_nil_iff.mpr fun e he => ?_⟩ <;>
    simp [h e he]

theorem unseen_block {k : Int} {prev event block : Dict} (hp : alreadySeen prev k = false)
    (he : alreadySeen event k = false) (hb : mergeDelta prev event = some block) :
    alreadySeen block k = false := by
  obtain ⟨-, -, -, -, -, hseq⟩ := mergeDelta_eq_some hb
  split at hseq
  · rw [alreadySeen_congr hseq, hp]
  · rw [alreadySeen_congr hseq, he]

theorem seen_block {k : Int} {prev event block : Dict}
    (he : alreadySeen event k ∨ isDelta event = false)
    (hb : mergeDelta prev event = some block) : alreadySeen block k := by
  obtain ⟨-, hd, -, -, -, hseq⟩ := mergeDelta_eq_some hb
  have hs : alreadySeen event k := he.resolve_right (by simp [hd])
  split at hseq
  next hnull => simp [alreadySeen_null hnull] at hs
  next => rwa [alreadySeen_congr hseq]

def lastText (merged : List Dict) : Str := (merged.getLast?.map deltaText).getD []

theorem lastText_of_apart {merged : List Dict} {e : Dict}
    (hm : ∀ m ∈ merged, isDelta m → Mergeable m) (he : isDelta e) (hem : Mergeable e)
    (hno : ∀ prev, merged.getLast? = some prev → mergeDelta prev e = none) :
    lastText merged = [] := by
  cases hl : merged.getLast? with
  | none => simp [lastText, hl]
  | some prev =>
      have hprev : isDelta prev = false := by
        by_contra hp
        rw [Bool.not_eq_false] at hp
        obtain ⟨block, hb⟩ := mergeDelta_isSome hp he (hm prev (List.mem_of_getLast? hl) hp) hem
        simp [hno prev hl] at hb
      simp [lastText, hl, deltaText_of_not_isDelta hprev]

theorem mergeable_mergeEvents {events : List Dict} (hm : ∀ e ∈ events, isDelta e → Mergeable e) :
    ∀ m ∈ mergeEvents events, isDelta m → Mergeable m :=
  forall_foldl_coalesceStep (P := fun m => isDelta m → Mergeable m)
    (fun _ _ _ _ _ hb _ => (mergeDelta_eq_some hb).2.2.2.1) (List.forall_mem_nil _) hm

theorem lastText_mergeEvents {events : List Dict} (hm : ∀ e ∈ events, isDelta e → Mergeable e) :
    lastText (mergeEvents events) = textOfEvents (events.rtakeWhile isDelta) := by
  induction events using List.reverseRecOn with
  | nil => rfl
  | append_singleton events e ih =>
      have hm' : ∀ d ∈ events, isDelta d → Mergeable d :=
        fun d hd => hm d (List.mem_append_left _ hd)
      have ih := ih hm'
      rw [mergeEvents, List.foldl_append, List.foldl_cons, List.foldl_nil, ← mergeEvents,
        List.rtakeWhile_concat]
      rcases coalesceStep_cases (mergeEvents events) e with
        ⟨init, prev, block, hinit, hblock, hstep⟩ | ⟨hno, hstep⟩
      · obtain ⟨-, hd, -, -, htext, -⟩ := mergeDelta_eq_some hblock
        have hprev : deltaText prev = textOfEvents (events.rtakeWhile isDelta) := by
          simpa [hinit, lastText] using ih
        rw [if_pos hd, textOfEvents_append, textOfEvents_singleton, hstep]
        simp [lastText, htext, hprev]
      · rw [hstep]
        split
        next hd =>
          have hlast : lastText (mergeEvents events) = [] :=
            lastText_of_apart (mergeable_mergeEvents hm') hd (hm e (by simp) hd) hno
          rw [textOfEvents_append, ← ih, hlast, textOfEvents_singleton]
          simp [lastText]
        next hd => simp [lastText, deltaText_of_not_isDelta (by simpa using hd), textOfEvents]

/-- What a client at `k` gets from the replay: the text after `k`, and once more
the text of a block it is inside. -/
theorem text_replayed {n : Nat} {events : List Dict} (hn : Numbered n events) {k : Nat}
    (hkn : k ≤ n) :
    textOfEvents ((mergeEvents events).filter fun e => !alreadySeen e k) =
      (if (after k events).head?.any isDelta then
          textOfEvents ((upTo k events).rtakeWhile isDelta) else []) ++
        textOfEvents (after k events) := by
  obtain ⟨hpre, hpost⟩ := cut_spec hn hkn
  have happ := upTo_append_after k events
  have hmpre : ∀ e ∈ upTo k events, isDelta e → Mergeable e :=
    fun e he => hn.mergeable e (by rw [← happ]; exact List.mem_append_left _ he)
  have hmpost : ∀ e ∈ after k events, isDelta e → Mergeable e :=
    fun e he => hn.mergeable e (by rw [← happ]; exact List.mem_append_right _ he)
  have hnum : ∀ e ∈ after k events, isDelta e → fetch e "seq" ≠ .null := by
    intro e he hd hnull
    have hno : numberOf e = none := by simp [numberOf, hnull]
    have hplain := hn.plain e (by rw [← happ]; exact List.mem_append_right _ he) hno
    simp [hplain.2] at hd
  generalize upTo k events = pre at *
  generalize after k events = post at *
  have hseen : ∀ m ∈ mergeEvents pre, alreadySeen m k ∨ isDelta m = false :=
    forall_foldl_coalesceStep (fun _ _ _ _ he hb => .inl (seen_block he hb)) (by simp) hpre
  have hunseen : ∀ {ms : List Dict}, (∀ m ∈ ms, alreadySeen m k = false) → ∀ {es : List Dict},
      (∀ e ∈ es, alreadySeen e k = false) → ∀ m ∈ es.foldl coalesceStep ms,
        alreadySeen m k = false :=
    fun hms _ hes => forall_foldl_coalesceStep (fun _ _ _ hp he hb => unseen_block hp he hb) hms hes
  rw [← happ, mergeEvents, List.foldl_append, ← mergeEvents]
  cases post with
  | nil =>
      rw [List.foldl_nil, (textOfEvents_filter_seen hseen).2]
      rfl
  | cons e post =>
      have hpost' : ∀ d ∈ post, alreadySeen d k = false :=
        fun d hd => hpost d (List.mem_cons_of_mem _ hd)
      rw [List.foldl_cons, ← lastText_mergeEvents hmpre, ← List.singleton_append (l := post),
        textOfEvents_append, textOfEvents_singleton]
      -- the first event after `k` joins the last block before it, or none does
      rcases coalesceStep_cases (mergeEvents pre) e with
        ⟨init, prev, block, hinit, hblock, hstep⟩ | ⟨hno, hstep⟩
      · obtain ⟨-, hd, hb, -, htext, hseq⟩ := mergeDelta_eq_some hblock
        have hblk : alreadySeen block k = false := by
          split at hseq
          next hnull => exact absurd hnull (hnum e (by simp) hd)
          next => rw [alreadySeen_congr hseq, hpost e (by simp)]
        rw [hstep, foldl_coalesceStep_append _ (by simp), List.filter_append, textOfEvents_append,
          (textOfEvents_filter_seen fun m hm => hseen m (by simp [hinit, hm])).2,
          (filter_unseen (hunseen (by simpa using hblk) hpost')).1, textOfEvents_foldl,
          textOfEvents_singleton, htext, hinit]
        simp [hd, lastText]
      · rw [hstep, foldl_coalesceStep_append _ (by simp), List.filter_append, textOfEvents_append,
          (textOfEvents_filter_seen hseen).2,
          (filter_unseen (hunseen (by simpa using hpost e (by simp)) hpost')).1,
          textOfEvents_foldl, textOfEvents_singleton]
        cases hd : isDelta e with
        | false => simp [hd]
        | true =>
            rw [lastText_of_apart (mergeable_mergeEvents hmpre) hd (hmpost e (by simp) hd) hno]
            simp [hd]

/-- A client that resumes at `k` gets the text of the run, unless `k` is inside
a block of deltas and some text of that block comes before. -/
theorem resumed_text_iff {n : Nat} {events : List Dict} (hn : Numbered n events) {k : Nat}
    (hkn : k ≤ n) {maxEvents : Int}
    (hmax : maxEvents ≤ 0 ∨ ((mergeEvents events).length : Int) ≤ maxEvents) (status : Str) :
    textOfEvents (events.filter (alreadySeen · k)) ++
        textOfEvents (replayPayloads (coalesceEvents events maxEvents) status k) =
          textOfEvents events ↔
      ((after k events).head?.any isDelta →
        textOfEvents ((upTo k events).rtakeWhile isDelta) = []) := by
  obtain ⟨hpre, hpost⟩ := cut_spec hn hkn
  have hlive : textOfEvents (events.filter (alreadySeen · k)) = textOfEvents (upTo k events) := by
    conv_lhs => rw [← upTo_append_after k events, List.filter_append, textOfEvents_append]
    rw [(textOfEvents_filter_seen hpre).1, (filter_unseen hpost).2]
    exact List.append_nil _
  have htotal : textOfEvents events =
      textOfEvents (upTo k events) ++ textOfEvents (after k events) := by
    rw [← textOfEvents_append, upTo_append_after]
  have hrun : textOfEvents [runEvent status] = [] := by
    simp [textOfEvents, deltaText, isDelta, runEvent, fetch, isStr]
  rw [hlive, replayPayloads, textOfEvents_append, hrun, List.append_nil,
    coalesceEvents_of_le hmax, text_replayed hn hkn, htotal, List.append_cancel_left_eq]
  split
  next hd => simp [hd]
  next hd => simp [hd]

end Interpreter

def deltaEvent (seq : Nat) (text : Str) : Dict :=
  [(str "type", .str (str "delta")),
    (str "data", .obj [(str "type", .str (str "delta")), (str "seq", .int seq),
      (str "text", .str text)]),
    (str "malformed", .bool false), (str "seq", .int seq)]

theorem numbered_pair (a b : Str) : Numbered 2 [deltaEvent 1 a, deltaEvent 2 b] where
  numbers := rfl
  plain := by
    intro e he hno
    rcases List.mem_pair.mp he with rfl | rfl <;> cases hno
  mergeable := by
    intro e he _
    rcases List.mem_pair.mp he with rfl | rfl <;> exact ⟨⟨_, rfl⟩, rfl⟩

theorem resumed_text_pair :
    letI : Interpreter := asciiTables
    Numbered 2 [deltaEvent 1 "", deltaEvent 2 "b"] ∧
      (textOfEvents ([deltaEvent 1 "", deltaEvent 2 "b"].filter (alreadySeen · 1)) ++
          textOfEvents (replayPayloads
            (coalesceEvents [deltaEvent 1 "", deltaEvent 2 "b"] 0) "done" 1) =
          textOfEvents [deltaEvent 1 "", deltaEvent 2 "b"] ↔
        ((after 1 [deltaEvent 1 "", deltaEvent 2 "b"]).head?.any isDelta →
          textOfEvents ((upTo 1 [deltaEvent 1 "", deltaEvent 2 "b"]).rtakeWhile isDelta) = [])) := by
  let _ : Interpreter := asciiTables
  exact ⟨numbered_pair _ _, resumed_text_iff (numbered_pair _ _) (by decide) (.inl (by decide)) _⟩

/-- Two deltas are stored as one block numbered 2, so a client at 1 gets the
first text again. -/
theorem not_resumed_text :
    letI : Interpreter := asciiTables
    Numbered 2 [deltaEvent 1 "a", deltaEvent 2 "b"] ∧
      textOfEvents ([deltaEvent 1 "a", deltaEvent 2 "b"].filter (alreadySeen · 1)) ++
          textOfEvents (replayPayloads
            (coalesceEvents [deltaEvent 1 "a", deltaEvent 2 "b"] 0) "done" 1) ≠
        textOfEvents [deltaEvent 1 "a", deltaEvent 2 "b"] := by
  refine ⟨numbered_pair _ _, ?_⟩
  decide

end AgentWeb.Resume
