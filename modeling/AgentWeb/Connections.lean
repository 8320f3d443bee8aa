import AgentWeb.EventStream
import AgentWeb.Resume
import AgentWeb.SeenOrder
import AgentWeb.Session
import Mathlib.Data.List.Sort

namespace AgentWeb.Connections

open PyText PyFloat PyJson JsonLoads Decimals Protocol Replay Resume Sanitize Truncation Tenants EventSource
  Transitions Fanout Delivery SeenOrder
open EventStream hiding received
open Session (isRun streamed)

theorem prefix_of_perm {as bs l : List Nat} (hp : (as ++ bs).Perm l) (hl : l.Pairwise (· < ·))
    (has : as.Pairwise (· < ·)) (hbefore : ∀ a ∈ as, ∀ b ∈ bs, a < b) : as <+: l := by
  have hsort := List.perm_insertionSort (· ≤ ·) bs
  have hperm : (as ++ bs.insertionSort (· ≤ ·)).Perm l := (hsort.append_left as).trans hp
  have hsorted : (as ++ bs.insertionSort (· ≤ ·)).Pairwise (· ≤ ·) := by
    refine List.pairwise_append.mpr ⟨has.imp le_of_lt, List.pairwise_insertionSort _ bs, ?_⟩
    exact fun a ha b hb => (hbefore a ha b (hsort.subset hb)).le
  exact ⟨_, hperm.eq_of_pairwise (fun a b _ _ hab hba => le_antisymm hab hba) hsorted
    (hl.imp le_of_lt)⟩

theorem pairwise_unseen (seen : List Dict) (sinceSeq : Int) :
    (unseen seen sinceSeq).Pairwise (· < ·) := by
  have hsub : (unseen seen sinceSeq).Sublist (List.range seen.length) := by
    rw [List.range_eq_range', ← List.zipIdx_map_snd 0 seen]
    exact List.filter_sublist.map _
  exact List.pairwise_lt_range.sublist hsub

theorem events_unseen (seen : List Dict) (sinceSeq : Int) :
    (unseen seen sinceSeq).filterMap (fun i => seen[i]?) =
      seen.filter fun e => !alreadySeen e sinceSeq := by
  have hevent : (unseen seen sinceSeq).filterMap (fun i => seen[i]?) =
      (seen.zipIdx.filter fun e => !alreadySeen e.1 sinceSeq).map Prod.fst := by
    rw [unseen, List.filterMap_map, ← List.filterMap_eq_map]
    refine List.filterMap_congr fun e he => ?_
    exact List.mem_zipIdx_iff_getElem?.mp (List.mem_filter.mp he).1
  rw [hevent]
  conv_rhs => rw [← List.zipIdx_map_fst 0 seen, List.filter_map]
  rfl

theorem unseen_later {seen : List Dict} {sinceSeq : Int} {b : Nat} (hb : b ≤ seen.length)
    (h : ∀ e ∈ seen.drop b, alreadySeen e sinceSeq = false) :
    unseen seen sinceSeq = unseen (seen.take b) sinceSeq ++ List.range' b (seen.length - b) := by
  conv_lhs => rw [unseen, ← List.take_append_drop b seen, List.zipIdx_append, List.filter_append, List.map_append]
  have hlater : ((seen.drop b).zipIdx (0 + (seen.take b).length)).filter
      (fun e => !alreadySeen e.1 sinceSeq) = (seen.drop b).zipIdx (0 + (seen.take b).length) := by
    rw [List.filter_eq_self]
    intro e he
    rw [h e.1 (List.fst_mem_of_mem_zipIdx he)]
    rfl
  rw [hlater, List.zipIdx_map_snd, Nat.zero_add, List.length_take, Nat.min_eq_left hb, List.length_drop]
  rfl

/-- A queue has room for what it is offered, and offers are in order. -/
def Smooth (maxsize q : Nat) (s : Sys) (a : Act) : Prop := Room maxsize q s a ∧ InOrder s a

instance (maxsize q : Nat) (s : Sys) (a : Act) : Decidable (Smooth maxsize q s a) :=
  inferInstanceAs (Decidable (_ ∧ _))

/-- A queue that is made after the state `f` has or is owed what its client had not seen of the
events that were there, and all that came after. -/
def Fed (f : Sys) (q : Nat) (s : Sys) : Prop :=
  q ∈ s.subscribers → f.chans.length ≤ q → ∀ c, s.chans[q]? = some c →
    ∃ b, f.seen.length ≤ b ∧ b ≤ s.seen.length ∧
      (Fanout.received c ++ owed s q).Perm
        (unseen (s.seen.take b) c.since ++ List.range' b (s.seen.length - b))

theorem move_fed {maxsize q : Nat} {f s s' : Sys} {a : Act} (hw : Wired s) (hseen : f.seen <+: s.seen)
    (h : Fed f q s) (hf : Room maxsize q s a) (hm : Move maxsize s a s') : Fed f q s' := by
  intro hq hle c' hc'
  rcases move_hands hw hf hm hq hc' with ⟨c, hq, hc, hsince, hp⟩ | ⟨-, heq, hp⟩
  · obtain ⟨b, hfb, hb, hperm⟩ := h hq hle c hc
    have hgrows := move_seen hm
    have hlen := hgrows.length_le
    have htake : s'.seen.take b = s.seen.take b := by
      obtain ⟨new, hnew⟩ := hgrows
      rw [← hnew, List.take_append_of_le_length hb]
    have hrange : List.range' b (s'.seen.length - b) =
        List.range' b (s.seen.length - b) ++
          List.range' s.seen.length (s'.seen.length - s.seen.length) := by
      have hsplit := List.range'_append_1 (s := b) (m := s.seen.length - b)
        (n := s'.seen.length - s.seen.length)
      rw [Nat.add_sub_cancel' hb] at hsplit
      rw [hsplit]
      congr 1
      omega
    refine ⟨b, hfb, hb.trans hlen, ?_⟩
    rw [htake, hrange, ← hsince, ← List.append_assoc]
    exact hp.trans (hperm.append_right _)
  · refine ⟨s.seen.length, hseen.length_le, by rw [heq], ?_⟩
    rw [heq, List.take_length, Nat.sub_self, List.range'_zero, List.append_nil]
    exact hp

structure Steady (s : Sys) : Prop where
  wired : Wired s
  once : Once s
  sorted : Sorted s

theorem registered_steady : Steady .registered where
  wired := registered_wired
  once := registered_once
  sorted := by constructor <;> simp [Sys.registered]

theorem seen_run {maxsize : Nat} {f f' : Sys} {acts : List Act}
    (hr : run (step maxsize) f acts = some f') : f.seen <+: f'.seen :=
  run_invariant (I := fun s => f.seen <+: s.seen)
    (fun _ _ _ h hstep => h.trans (move_seen (step_move hstep))) List.prefix_rfl hr

theorem steady_run {maxsize q : Nat} {f f' : Sys} (hs : Steady f) {acts : List Act}
    (hsmooth : EachStep (step maxsize) (Smooth maxsize q) f acts)
    (hr : run (step maxsize) f acts = some f') : Steady f' ∧ Fed f q f' := by
  have hbegin : Fed f q f := by
    intro hq hle c hc
    exact absurd (hs.wired.subscribed q hq) hle.not_gt
  have hall := always_of_eachStep (I := fun s => Steady s ∧ Fed f q s)
    (J := fun s => f.seen <+: s.seen ∧ Steady s ∧ Fed f q s) (fun s h => h.2)
    (fun s a s' h hg hstep => ?_) ⟨List.prefix_rfl, hs, hbegin⟩ hsmooth
  · exact hall.final hr
  · obtain ⟨hseen, hs, hfed⟩ := h
    have hm := step_move hstep
    exact ⟨hseen.trans (move_seen hm), ⟨move_wired hs.wired hm, move_once hs.wired hs.once hm,
      move_sorted hs.wired hs.once hs.sorted hg.2 hm⟩, move_fed hs.wired hseen hfed hg.1 hm⟩

/-- `_stream` ends with the first event of type `run`. -/
def relayed : List Dict → List Dict
  | [] => []
  | e :: es => if isRun e then [e] else e :: relayed es

theorem relayed_begins (es : List Dict) : relayed es <+: es := by
  induction es with
  | nil => exact List.prefix_rfl
  | cons e es ih =>
      rw [relayed]
      split
      · exact List.prefix_append [e] es
      · exact (List.prefix_cons_inj e).mpr ih

theorem relayed_all {es : List Dict} (h : ∀ e ∈ es.dropLast, isRun e = false) : relayed es = es := by
  induction es with
  | nil => rfl
  | cons e es ih =>
      cases es with
      | nil => simp [relayed]
      | cons e' es =>
          rw [List.dropLast_cons_cons] at h
          rw [relayed, h e (List.mem_cons_self ..), ih fun d hd => h d (List.mem_cons_of_mem _ hd)]
          rfl

theorem dropLast_filter_subset (p : Dict → Bool) (es : List Dict) :
    (es.filter p).dropLast ⊆ es.dropLast := by
  rcases List.eq_nil_or_concat es with rfl | ⟨init, e, rfl⟩
  · exact List.Subset.refl _
  · rw [List.concat_eq_append, List.filter_append, List.dropLast_concat]
    intro d hd
    cases h : p e with
    | true =>
        rw [List.filter_singleton, h, cond_true, List.dropLast_concat] at hd
        exact List.mem_of_mem_filter hd
    | false =>
        rw [List.filter_singleton, h, cond_false, List.append_nil] at hd
        exact List.mem_of_mem_filter (List.mem_of_mem_dropLast hd)

def isNumbered (e : Dict) : Bool := (numberOf e).isSome

def number (e : Dict) : Int := (numberOf e).getD 0

/-- Relayed events are numbered from 1 to `n` in order. An event of another origin has no
`seq`. -/
structure Counted (n : Nat) (seen : List Dict) : Prop where
  numbers : seen.filterMap numberOf = (List.range' 1 n).map Int.ofNat
  plain : ∀ e ∈ seen, numberOf e = none → fetch e "seq" = .null

theorem numbers_eq (es : List Dict) : es.filterMap numberOf = (es.filter isNumbered).map number := by
  induction es with
  | nil => rfl
  | cons e es ih =>
      cases h : numberOf e with
      | none => rw [List.filterMap_cons_none h, List.filter_cons_of_neg (by simp [isNumbered, h]), ih]
      | some i =>
          rw [List.filterMap_cons_some h, List.filter_cons_of_pos (by simp [isNumbered, h]),
            List.map_cons, ih, number, h, Option.getD_some]

theorem Counted.of_prefix {n : Nat} {seen seen' : List Dict} (hn : Counted n seen')
    (h : seen <+: seen') : ∃ m ≤ n, Counted m seen := by
  have hp := h.filterMap numberOf
  have hlen := hp.length_le
  rw [hn.numbers] at hp
  rw [hn.numbers, List.length_map, List.length_range'] at hlen
  refine ⟨_, hlen, ?_, fun e he => hn.plain e (h.subset he)⟩
  rw [List.prefix_iff_eq_take, ← List.map_take, List.take_range'_of_length_ge hlen] at hp
  exact hp

section Numbers

variable {n : Nat} {seen : List Dict} (hn : Counted n seen)

include hn

theorem numbers_numbered : (seen.filter isNumbered).map number = (List.range' 1 n).map Int.ofNat := by
  rw [← numbers_eq, hn.numbers]

theorem length_numbered : (seen.filter isNumbered).length = n := by
  simpa using congrArg List.length (numbers_numbered hn)

theorem number_getElem {i : Nat} (hi : i < (seen.filter isNumbered).length) :
    number (seen.filter isNumbered)[i] = i + 1 := by
  have h := congrArg (fun l => l[i]?) (numbers_numbered hn)
  have hlt : i < n := by rwa [length_numbered hn] at hi
  simp only [List.getElem?_map, List.getElem?_eq_getElem hi, Option.map_some,
    List.getElem?_range' hlt, Option.some.injEq, Int.ofNat_eq_natCast] at h
  rw [h]
  omega

theorem alreadySeen_counted {e : Dict} (he : e ∈ seen) (k : Nat) :
    alreadySeen e k = (isNumbered e && decide (number e ≤ k)) := by
  cases hi : numberOf e with
  | none =>
      rw [alreadySeen_null (hn.plain e he hi), isNumbered, hi]
      rfl
  | some i =>
      rw [isNumbered, number, hi, Option.isSome_some, Option.getD_some, Bool.true_and]
      rcases Nat.eq_zero_or_pos k with rfl | hk
      · have hmem : i ∈ seen.filterMap numberOf := List.mem_filterMap.mpr ⟨e, he, hi⟩
        rw [hn.numbers] at hmem
        obtain ⟨j, hj, rfl⟩ := List.mem_map.mp hmem
        rw [List.mem_range'_1] at hj
        rw [alreadySeen, if_pos (by simp), eq_comm, decide_eq_false_iff_not, Int.ofNat_eq_natCast]
        omega
      · exact alreadySeen_of_number hi hk

theorem numbered_unseen (k : Nat) :
    (seen.filter fun e => !alreadySeen e k).filter isNumbered = (seen.filter isNumbered).drop k := by
  have hswap : (seen.filter fun e => !alreadySeen e k).filter isNumbered =
      (seen.filter isNumbered).filter fun e => !alreadySeen e k := by
    rw [List.filter_filter, List.filter_filter]
    simp only [Bool.and_comm]
  have hmem : ∀ e ∈ seen.filter isNumbered, alreadySeen e k = decide (number e ≤ k) := by
    intro e he
    obtain ⟨he, hnum⟩ := List.mem_filter.mp he
    rw [alreadySeen_counted hn he, hnum, Bool.true_and]
  rw [hswap]
  conv_lhs => rw [← List.take_append_drop k (seen.filter isNumbered), List.filter_append]
  rw [List.filter_eq_nil_iff.mpr, List.filter_eq_self.mpr, List.nil_append]
  · intro e he
    obtain ⟨i, hi, rfl⟩ := List.mem_drop_iff_getElem.mp he
    rw [hmem _ (List.getElem_mem _), number_getElem hn]
    simp only [Bool.not_eq_true', decide_eq_false_iff_not]
    push_cast
    omega
  · intro e he
    obtain ⟨i, hi, rfl⟩ := List.mem_take_iff_getElem.mp he
    rw [hmem _ (List.getElem_mem _), number_getElem hn]
    simp only [Bool.not_eq_true', Bool.not_eq_false, decide_eq_true_eq]
    omega

theorem unseen_of_later {before : List Dict} (hpre : before <+: seen) {k : Nat}
    (hk : k ≤ (before.filter isNumbered).length) :
    ∀ e ∈ seen.drop before.length, alreadySeen e k = false := by
  intro e he
  rw [alreadySeen_counted hn (List.mem_of_mem_drop he), Bool.and_eq_false_iff,
    decide_eq_false_iff_not]
  by_cases hnum : isNumbered e
  · right
    obtain ⟨later, rfl⟩ := hpre
    rw [List.drop_left] at he
    obtain ⟨i, hi, rfl⟩ := List.mem_iff_getElem.mp (List.mem_filter.mpr ⟨he, hnum⟩)
    have hget := number_getElem hn (i := (before.filter isNumbered).length + i) (by
      rw [List.filter_append, List.length_append]
      omega)
    simp only [List.filter_append, List.getElem_append_right (Nat.le_add_right ..),
      Nat.add_sub_cancel_left] at hget
    rw [hget]
    omega
  · exact .inl (by simpa using hnum)

end Numbers

section

variable [Interpreter]

/-- An event source has got the first `k` numbered events of a run, each once and in order, and
remembers the last of their numbers. What else it has got are events of the run, too. -/
structure Caught (seen : List Dict) (s : Source) (got : List Dict) (k : Nat) : Prop where
  messages : s.messages.map Message.data = got.map fun e => dumps (.obj e)
  events : got ⊆ seen
  le : k ≤ (seen.filter isNumbered).length
  numbered : got.filter isNumbered = (seen.filter isNumbered).take k
  last : s.lastEventId = if k = 0 then [] else decimal k

theorem pyInt_decimal {k : Nat} (hk : (decimal k).length ≤ intMaxStrDigits) :
    pyInt (.str (decimal k)) = .ok k := by
  have hdigits := decimal_isDigits k
  have hne := decimal_ne_nil k
  have hspace : ∀ c ∈ decimal k, isIntSpace c = false := by
    intro c hc
    have := hdigits c hc
    simp only [isIntSpace, Bool.or_eq_false_iff, Bool.and_eq_false_iff, decide_eq_false_iff_not,
      beq_eq_false_iff_ne]
    omega
  have hstrip : ((decimal k).dropWhile isIntSpace).rdropWhile isIntSpace = decimal k := by
    rw [List.dropWhile_eq_self_iff.mpr fun h => by simp [hspace _ (List.getElem_mem h)],
      List.rdropWhile_eq_self_iff.mpr fun h => by simp [hspace _ (List.getLast_mem h)]]
  have hsign : (decimal k).head? ≠ some 43 ∧ (decimal k).head? ≠ some 45 := by
    constructor <;> intro h <;> have := hdigits _ (List.mem_of_mem_head? h) <;> omega
  have hplain : (decimal k).filter (· ≠ 95) = decimal k := by
    rw [List.filter_eq_self]
    intro c hc
    have := hdigits c hc
    simp only [ne_eq, decide_eq_true_eq]
    omega
  have hvalue : ∀ (s : Str) (b : Bool) (n : Nat), IsDigits s → (s = [] → b) →
      intDigits b n s = some (s.foldl (fun n c => n * 10 + (c - 48)) n) := by
    intro s
    induction s with
    | nil => exact fun b n _ hb => by simp [intDigits, hb rfl]
    | cons c s ih =>
        intro b n hs _
        have hc := hs c (by simp)
        rw [intDigits, if_neg (by omega), digitValue, if_pos hc, Option.bind_some,
          ih true _ (hs.of_subset (List.subset_cons_self c s)) fun _ => rfl]
        rfl
  have hread : intOfStr (decimal k) = some (k : Int) := by
    rw [intOfStr]
    simp only [hstrip, hsign.1, hsign.2, or_self, if_false, hplain, Nat.not_lt.mpr hk]
    rw [hvalue _ _ _ hdigits fun h => absurd h hne]
    exact congrArg (fun n : Nat => some (n : Int)) (digitsValue_decimal k)
  simp [pyInt, hread]

theorem resumeFrom_caught {seen : List Dict} {s : Source} {got : List Dict} {k : Nat}
    (hlimit : k < 10 ^ intMaxStrDigits) (h : Caught seen s got k) :
    resumeFrom none (some s.lastEventId) = k := by
  rw [resumeFrom, h.last]
  by_cases hk : k = 0
  · rw [if_pos hk, hk]
    rfl
  · have hlen := decimal_length_le (by decide) hlimit
    simp [if_neg hk, pyInt_decimal hlen]

theorem idText_counted {n : Nat} {seen : List Dict} (hn : Counted n seen) {e : Dict} (he : e ∈ seen) :
    idText e = (numberOf e).map decimalInt := by
  cases hi : numberOf e with
  | none => simp [idText, hn.plain e he hi]
  | some i =>
      rw [numberOf] at hi
      split at hi
      next j hs =>
        cases hi
        simp only [idText, hs, Option.map_some]
        rfl
      next => cases hi

theorem caught_again {n : Nat} {seen seen' : List Dict} (hn : Counted n seen') {s : Source}
    {got : List Dict} {k : Nat} (h : Caught seen s got k) (hseen : seen <+: seen')
    {chunks : List Chunk} {p : Str}
    (hserved : chunks.filterMap Chunk.payload <+: seen'.filter fun e => !alreadySeen e k)
    (harrived : p <+: streamText (sent chunks)) :
    ∃ more j, Caught seen' (receive (reconnect s) p) (got ++ more) (k + j) ∧
      (p = streamText chunks → more = chunks.filterMap Chunk.payload) := by
  have harrived : p <+: streamText chunks := by
    refine harrived.trans ?_
    obtain ⟨rest, hrest⟩ : sent chunks <+: chunks := List.takeWhile_prefix _
    rw [streamText, streamText]
    conv_rhs => rw [← hrest, List.flatMap_append]
    exact List.prefix_append ..
  obtain ⟨arrivals, hpre, hall, hmessages, hlast⟩ := receive_cut (settled_reconnect s) harrived
  generalize hmore : arrivals.filterMap Chunk.payload = more
  have hmore' : more <+: seen'.filter fun e => !alreadySeen e k := by
    rw [← hmore]
    exact (hpre.filterMap _).trans hserved
  have hmem : ∀ e ∈ more, e ∈ seen' := fun e he => (List.mem_filter.mp (hmore'.subset he)).1
  generalize hj : (more.filter isNumbered).length = j
  have hnext : more.filter isNumbered = ((seen'.filter isNumbered).drop k).take j := by
    have hp := hmore'.filter isNumbered
    rw [numbered_unseen hn, List.prefix_iff_eq_take, hj] at hp
    exact hp
  have hle : k + j ≤ (seen'.filter isNumbered).length := by
    have hlen := congrArg List.length hnext
    rw [hj, List.length_take, List.length_drop] at hlen
    have := h.le.trans (hseen.filter isNumbered).length_le
    omega
  have htake : (seen.filter isNumbered).take k = (seen'.filter isNumbered).take k := by
    obtain ⟨new, hnew⟩ := hseen.filter isNumbered
    rw [← hnew, List.take_append_of_le_length h.le]
  have hids : more.filterMap idText = (List.range' (k + 1) j).map decimal := by
    have hcongr : more.filterMap idText = (more.filterMap numberOf).map decimalInt := by
      rw [List.map_filterMap]
      exact List.filterMap_congr fun e he => idText_counted hn (hmem e he)
    have hnumbers : (more.filter isNumbered).map number =
        (List.range' (k + 1) j).map Int.ofNat := by
      rw [hnext, List.map_take, List.map_drop, numbers_numbered hn, ← List.map_drop, ← List.map_take,
        List.drop_range', List.take_range'_of_length_ge, Nat.mul_one, Nat.add_comm 1 k]
      rw [length_numbered hn] at hle
      omega
    rw [hcongr, numbers_eq, hnumbers, List.map_map]
    exact List.map_congr_left fun i _ => by simp [decimalInt]
  refine ⟨more, j, ⟨?_, ?_, hle, ?_, ?_⟩, fun hp => ?_⟩
  · rw [hmessages, messages_foldl, hmore, List.map_append, ← h.messages]
    rfl
  · exact List.append_subset.mpr ⟨fun e he => hseen.subset (h.events he), hmem⟩
  · rw [List.filter_append, h.numbered, hnext, htake, List.take_add]
  · rw [hlast, lastEventId_foldl, hmore, hids]
    cases j with
    | zero => exact h.last
    | succ j =>
        rw [List.range'_1_concat, List.map_append, List.map_singleton, List.getLast?_concat,
          Option.getD_some, if_neg (by omega)]
        congr 1
        omega
  · rw [← hmore, hall hp]

/-- A connection of an event source to a live run, opened after the state `f` and come as far as
`f'`: a queue that was made for what comes after the last id and is still listed, and what the
stream has written of the events it took from it. -/
structure Connection (maxsize : Nat) (f f' : Sys) (s : Source) (q : Nat) (c : Chan)
    (chunks : List Chunk) : Prop where
  reached : ∃ acts, EachStep (step maxsize) (Smooth maxsize q) f acts ∧
    run (step maxsize) f acts = some f'
  made : f.chans.length ≤ q
  listed : q ∈ f'.subscribers
  chan : f'.chans[q]? = some c
  since : c.since = resumeFrom none (some s.lastEventId)
  written : chunks.filterMap Chunk.payload <+: relayed (streamed f' q)

/-- The connections of one event source to a live run, up to a state of the run. Each may break at
any character, and is followed by one that asks for what comes after the last id. -/
inductive Connected (maxsize : Nat) : Sys → Source → Prop
  | start : Connected maxsize .registered {}
  | again {f f' : Sys} {s : Source} {q : Nat} {c : Chan} {chunks : List Chunk} {p : Str}
      (h : Connected maxsize f s) (connection : Connection maxsize f f' s q c chunks)
      (arrived : p <+: streamText (sent chunks)) : Connected maxsize f' (receive (reconnect s) p)

theorem streamed_begins {maxsize n : Nat} {f f' : Sys} (hs : Steady f) (hn : Counted n f'.seen)
    (hlimit : n < 10 ^ intMaxStrDigits) {s : Source} {got : List Dict} {k : Nat}
    (h : Caught f.seen s got k) {q : Nat} {c : Chan} {chunks : List Chunk}
    (hc : Connection maxsize f f' s q c chunks) :
    streamed f' q <+: (f'.seen.filter fun e => !alreadySeen e k) ∧
      (owed f' q = [] → c.items = [] → streamed f' q = f'.seen.filter fun e => !alreadySeen e k) := by
  obtain ⟨acts, hsmooth, hr⟩ := hc.reached
  have hseen := seen_run hr
  obtain ⟨hs', hfed⟩ := steady_run hs hsmooth hr
  have hk : k ≤ n := by
    rw [← length_numbered hn]
    exact h.le.trans (hseen.filter isNumbered).length_le
  have hsince : c.since = k := hc.since.trans (resumeFrom_caught (hk.trans_lt hlimit) h)
  obtain ⟨b, hfb, hb, hperm⟩ := hfed hc.listed hc.made c hc.chan
  have hlater : ∀ e ∈ f'.seen.drop b, alreadySeen e k = false := fun e he =>
    unseen_of_later hn hseen h.le e ((List.drop_sublist_drop_left f'.seen hfb).subset he)
  rw [hsince, ← unseen_later hb hlater] at hperm
  have hgot : Fanout.received c <+: unseen f'.seen k :=
    prefix_of_perm hperm (pairwise_unseen _ _) (hs'.sorted.order q c hc.chan)
      (hs'.sorted.before q c hc.chan)
  have hstreamed : streamed f' q = c.taken.filterMap fun i => f'.seen[i]? := by
    rw [streamed, hc.chan, Option.elim_some]
  rw [hstreamed, ← events_unseen]
  refine ⟨((List.prefix_append _ _).trans hgot).filterMap _, fun howed hitems => ?_⟩
  rw [howed, List.append_nil] at hperm
  have hall := hgot.eq_of_length hperm.length_eq
  rw [Fanout.received, hitems, List.append_nil] at hall
  rw [hall]

theorem connected_caught {maxsize n : Nat} {f : Sys} {s : Source} (hn : Counted n f.seen)
    (hlimit : n < 10 ^ intMaxStrDigits) (h : Connected maxsize f s) :
    Steady f ∧ ∃ got k, Caught f.seen s got k := by
  induction h generalizing n with
  | start => exact ⟨registered_steady, [], 0, rfl, List.nil_subset _, Nat.zero_le _, rfl, rfl⟩
  | again h connection arrived ih =>
      obtain ⟨acts, hsmooth, hr⟩ := connection.reached
      have hseen := seen_run hr
      obtain ⟨m, hm, hbefore⟩ := hn.of_prefix hseen
      obtain ⟨hs, got, k, hk⟩ := ih hbefore (hm.trans_lt hlimit)
      have htaken := (streamed_begins hs hn hlimit hk connection).1
      have hserved := connection.written.trans ((relayed_begins _).trans htaken)
      obtain ⟨more, j, hmore, -⟩ := caught_again hn hk hseen hserved arrived
      exact ⟨(steady_run hs hsmooth hr).1, got ++ more, k + j, hmore⟩

/-- A connection that has lasted until its queue was handed every event and is empty. Only the last
event is about the run, and no text is without an encoding. -/
structure Whole (f' : Sys) (q : Nat) (c : Chan) (chunks : List Chunk) : Prop where
  handed : owed f' q = []
  taken : c.items = []
  plain : ∀ e ∈ f'.seen.dropLast, isRun e = false
  written : chunks.filterMap Chunk.payload = relayed (streamed f' q)
  sent : sent chunks = chunks

/-- However often the connection breaks, and at whatever character, the client has got the
numbered events of the run up to some number, each once and in order, and asks for what
comes after it; and a connection that lasts gives it all of the rest. -/
theorem reconnects_once {maxsize n : Nat} {f : Sys} {s : Source} (hn : Counted n f.seen)
    (hlimit : n < 10 ^ intMaxStrDigits) (h : Connected maxsize f s) :
    ∃ got k, Caught f.seen s got k ∧ resumeFrom none (some s.lastEventId) = k ∧
      ∀ (m : Nat) (f' : Sys) (q : Nat) (c : Chan) (chunks : List Chunk), Counted m f'.seen →
        m < 10 ^ intMaxStrDigits → Connection maxsize f f' s q c chunks → Whole f' q c chunks →
          Caught f'.seen (receive (reconnect s) (streamText chunks))
            (got ++ f'.seen.filter fun e => !alreadySeen e k) m := by
  obtain ⟨hs, got, k, hk⟩ := connected_caught hn hlimit h
  have hkn : k ≤ n := length_numbered hn ▸ hk.le
  refine ⟨got, k, hk, resumeFrom_caught (hkn.trans_lt hlimit) hk, ?_⟩
  intro m f' q c chunks hm hlimit' connection whole
  obtain ⟨acts, -, hr⟩ := connection.reached
  obtain ⟨htaken, hrest⟩ := streamed_begins hs hm hlimit' hk connection
  have hserved := connection.written.trans ((relayed_begins _).trans htaken)
  obtain ⟨more, j, hmore, hall⟩ := caught_again hm hk (seen_run hr) hserved
    (by rw [whole.sent])
  have hevents : chunks.filterMap Chunk.payload = f'.seen.filter fun e => !alreadySeen e k := by
    rw [whole.written, hrest whole.handed whole.taken]
    exact relayed_all fun e he => whole.plain e (dropLast_filter_subset _ _ he)
  rw [hall rfl, hevents] at hmore
  have hlen := congrArg List.length hmore.numbered
  rw [List.filter_append, numbered_unseen hm, hk.numbered, List.length_append, List.length_take,
    List.length_drop, List.length_take, length_numbered hm, min_eq_left hk.le] at hlen
  have hle := hmore.le
  rw [length_numbered hm] at hle
  have hkm : k ≤ m := (Nat.le_add_right k j).trans hle
  obtain rfl : k + j = m := by omega
  exact hmore

end

/-- Two events are broadcast and taken, and the connection breaks within the frame of the second. -/
def brokenOff : List Act :=
  [.call (.subscribe 0), .advance 0 [], .advance 0 [],
    .call (.broadcast (deltaEvent 1 "a")), .advance 1 [], .advance 1 [0], .advance 1 [], .get 0,
    .call (.broadcast (deltaEvent 2 "b")), .advance 2 [], .advance 2 [0], .advance 2 [], .get 0]

/-- Another connection lasts to the end of the run. The queue of the first, which nobody reads any
more, overflows. -/
def goneOn : List Act :=
  [.call (.subscribe 1), .advance 3 [], .advance 3 [], .get 1,
    .call (.broadcast (deltaEvent 3 "c")), .advance 4 [], .advance 4 [0, 1], .advance 4 [], .advance 4 [], .get 1,
    .call (.closeActive "done"), .advance 5 [], .advance 5 [0, 1], .advance 5 [], .advance 5 [], .get 1]

theorem reconnects_once_brokenOff :
    letI : Interpreter := asciiTables
    let s := receive (reconnect {})
      ((streamText [.keepalive, .event (deltaEvent 1 "a"), .event (deltaEvent 2 "b")]).take 200)
    ∃ f f' got k, run (step 1) .registered brokenOff = some f ∧ run (step 1) f goneOn = some f' ∧
      Caught f.seen s got k ∧ resumeFrom none (some s.lastEventId) = k ∧
        Caught f'.seen
          (receive (reconnect s) (streamText [.event (deltaEvent 2 "b"), .keepalive,
            .event (deltaEvent 3 "c"), .event (runEvent "done")]))
          (got ++ f'.seen.filter fun e => !alreadySeen e k) 3 := by
  let _ : Interpreter := asciiTables
  intro s
  have hrun : run (step 1) .registered brokenOff =
      some ⟨true, [deltaEvent 1 "a", deltaEvent 2 "b"], none, [0], [⟨[], [0, 1], 0, false⟩],
        [.returned, .offering 0 false [], .offering 1 false []]⟩ := rfl
  have hrun' : run (step 1) ⟨true, [deltaEvent 1 "a", deltaEvent 2 "b"], none, [0],
      [⟨[], [0, 1], 0, false⟩], [.returned, .offering 0 false [], .offering 1 false []]⟩ goneOn =
      some ⟨false, [deltaEvent 1 "a", deltaEvent 2 "b", deltaEvent 3 "c", runEvent "done"], some 3,
        [0, 1], [⟨[3], [0, 1], 0, true⟩, ⟨[], [1, 2, 3], 1, true⟩],
        [.returned, .offering 0 false [], .offering 1 false [], .returned, .offering 2 false [],
          .offering 3 true []]⟩ := rfl
  have hsince : resumeFrom none (some s.lastEventId) = 1 := by decide +kernel
  have hsent : sent [.keepalive, .event (deltaEvent 1 "a"), .event (deltaEvent 2 "b")] =
      [.keepalive, .event (deltaEvent 1 "a"), .event (deltaEvent 2 "b")] := rfl
  have hbegun : Connection 1 .registered _ {} 0 _
      [.keepalive, .event (deltaEvent 1 "a"), .event (deltaEvent 2 "b")] :=
    ⟨⟨brokenOff, by decide +kernel, hrun⟩, le_rfl, by decide, rfl, rfl, [], rfl⟩
  have hconnected : Connected 1 _ s := .again .start hbegun (hsent ▸ List.take_prefix _ _)
  have hlast : Connection 1 _ _ s 1 _
      [.event (deltaEvent 2 "b"), .keepalive, .event (deltaEvent 3 "c"), .event (runEvent "done")] :=
    ⟨⟨goneOn, by decide +kernel, hrun'⟩, le_rfl, by decide, rfl, hsince.symm, [], rfl⟩
  have hplain : ∀ e ∈ [deltaEvent 1 "a", deltaEvent 2 "b", deltaEvent 3 "c", runEvent "done"],
      numberOf e = none → fetch e "seq" = .null := by
    intro e he h
    simp only [List.mem_cons, List.not_mem_nil, or_false] at he
    obtain rfl | rfl | rfl | rfl := he
    · cases h
    · cases h
    · cases h
    · rfl
  have hcounted : Counted 2 [deltaEvent 1 "a", deltaEvent 2 "b"] :=
    ⟨rfl, fun e he => hplain e (List.mem_of_mem_take (i := 2) he)⟩
  have hcounted' : Counted 3 [deltaEvent 1 "a", deltaEvent 2 "b", deltaEvent 3 "c", runEvent "done"] :=
    ⟨rfl, hplain⟩
  have hlimit : 3 < 10 ^ intMaxStrDigits :=
    (show 3 < 10 ^ 1 by decide).trans_le (Nat.pow_le_pow_right (by decide) (by decide))
  obtain ⟨got, k, hgot, hk, hwhole⟩ := reconnects_once hcounted (lt_trans (by decide) hlimit) hconnected
  exact ⟨_, _, got, k, hrun, hrun', hgot, hk, hwhole 3 _ 1 _ _ hcounted' hlimit hlast
    ⟨rfl, rfl, by decide, rfl, rfl⟩⟩

end AgentWeb.Connections
