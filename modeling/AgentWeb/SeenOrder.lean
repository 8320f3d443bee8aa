import AgentWeb.Delivery

namespace AgentWeb.SeenOrder

open PyText PyJson Protocol Replay Transitions Fanout Delivery
open Offer hiding step Act

/-- A queue received its events in the order of `seen`, and nothing after the
terminal one. -/
def Ordered (s : Sys) : Prop :=
  ∀ (q : Nat) (c : Chan), s.chans[q]? = some c → (received c).Pairwise (· < ·) ∧
    ∀ f, s.terminal = some f → f ∈ received c → (received c).getLast? = some f

/-- A thread offers an event only when no older one is under way to the same
queue, and no event is appended after the terminal one. -/
def InOrder (s : Sys) : Act → Prop
  | .advance t _ => match s.tasks[t]? with
    | some (.offering event _ (q :: _)) => ∀ e ∈ owed s q, event ≤ e
    | some (.holding (.broadcast _)) => s.terminal = none
    | _ => True
  | _ => True

instance (s : Sys) : (a : Act) → Decidable (InOrder s a)
  | .advance t _ =>
      match h : s.tasks[t]? with
      | some (.offering event _ (q :: _)) =>
          decidable_of_iff (∀ e ∈ owed s q, event ≤ e) (by simp [InOrder, h])
      | some (.holding (.broadcast _)) =>
          decidable_of_iff (s.terminal = none) (by simp [InOrder, h])
      | some (.holding (.closeActive _)) | some (.holding (.subscribe _))
      | some (.holding (.unsubscribe _)) | some (.offering _ _ []) | some (.calling _)
      | some .returned | none => .isTrue (by simp [InOrder, h])
  | .call _ | .get _ => .isTrue trivial

/-- What a queue has comes before what it is owed, and the terminal event is
the last of `seen`. -/
structure Sorted (s : Sys) : Prop where
  order : ∀ (q : Nat) (c : Chan), s.chans[q]? = some c → (received c).Pairwise (· < ·)
  before : ∀ (q : Nat) (c : Chan), s.chans[q]? = some c → ∀ r ∈ received c, ∀ e ∈ owed s q, r < e
  last : ∀ f, s.terminal = some f → s.seen.length = f + 1

theorem Sorted.of_quiet {s s' : Sys} (hs : Sorted s) (hchans : s'.chans = s.chans)
    (hseen : s'.seen = s.seen) (hterm : s'.terminal = s.terminal)
    (howed : ∀ q, (owed s' q).Perm (owed s q)) : Sorted s' where
  order q c hc := hs.order q c (hchans ▸ hc)
  before q c hc r hr e he := hs.before q c (hchans ▸ hc) r hr e ((howed q).subset he)
  last f hf := by
    rw [hseen]
    exact hs.last f (hterm ▸ hf)

theorem pairwise_replayed (maxsize : Nat) (seen : List Dict) (sinceSeq : Int) :
    (replayed maxsize seen sinceSeq).Pairwise (· < ·) :=
  List.pairwise_lt_range.sublist (replayed_sublist maxsize seen sinceSeq)

theorem move_sorted {maxsize : Nat} {s s' : Sys} {a : Act} (hw : Wired s) (ho : Once s)
    (hs : Sorted s) (hg : InOrder s a) (hm : Move maxsize s a s') : Sorted s' := by
  cases hm with
  | call call => exact hs.of_quiet rfl rfl rfl fun q => by rw [owed_call]
  | lookUp t order call task active ht htask hactive =>
      refine hs.of_quiet rfl rfl rfl fun q => owed_quiet ht rfl ?_
      rcases htask with rfl | ⟨rfl, -, -⟩ <;> rfl
  | append t order call event force terminal ht horder hforce =>
      refine ⟨hs.order, fun q c hc r hr e he => ?_, fun f hf => ?_⟩
      · have hmem := (owed_append ht s.seen.length force order q).subset he
        rcases List.mem_append.mp hmem with he | he
        · exact hs.before q c hc r hr e he
        · rw [(List.mem_replicate.mp he).2]
          exact (ho q c hc).2 r (List.mem_append_left _ hr)
      · rw [List.length_append, List.length_singleton]
        rcases hforce with ⟨-, rfl, rfl⟩ | ⟨-, -, rfl, -⟩
        · simp only [InOrder, ht] at hg
          simp [hg] at hf
        · cases hf
          rfl
  | attach t order sinceSeq ht =>
      refine ⟨fun q c hc => ?_, fun q c hc r hr e he => ?_, hs.last⟩
      · rcases getElem?_attach hc with hc | ⟨rfl, rfl⟩
        · exact hs.order q c hc
        · exact pairwise_replayed maxsize s.seen sinceSeq
      · have howed := owed_quiet (q := q) ht rfl (show Thread.returned.owed q = [] from rfl)
        rcases getElem?_attach hc with hc | ⟨rfl, rfl⟩
        · exact hs.before q c hc r hr e (howed.subset he)
        · have hmem := howed.subset he
          simp [owed_new hw] at hmem
  | detach t order q ht => exact hs.of_quiet rfl rfl rfl fun q => owed_quiet ht rfl rfl
  | deliver t order event force p queues ht =>
      simp only [InOrder, ht] at hg
      refine ⟨fun q c' hc' => ?_, fun q c' hc' r hr e he => ?_, hs.last⟩
      · obtain ⟨c, hc, rfl⟩ := getElem?_deliver hc'
        split
        next hpq =>
          subst hpq
          have hmem : event ∈ owed s p :=
            (owed_deliver ht p).symm.subset (by simp)
          apply List.Pairwise.sublist (received_deliver_sublist maxsize force event c)
          rw [List.pairwise_append]
          refine ⟨hs.order p c hc, by simp, fun r hr e he => ?_⟩
          rw [List.mem_singleton.mp he]
          exact hs.before p c hc r hr event hmem
        next => exact hs.order q c hc
      · obtain ⟨c, hc, rfl⟩ := getElem?_deliver hc'
        have howed := owed_deliver ht q
        have hmem : e ∈ owed s q := howed.symm.subset (List.mem_append_right _ he)
        split at hr
        next hpq =>
          subst hpq
          have hr' := (received_deliver_sublist maxsize force event c).subset hr
          rw [List.mem_append, List.mem_singleton] at hr'
          rcases hr' with hr | rfl
          · exact hs.before p c hc r hr e hmem
          · -- what is still under way is not older, and not the same event again
            have hnd := (List.nodup_append.mp (ho p c hc).1).2.1
            rw [howed.nodup_iff, if_pos rfl, List.singleton_append, List.nodup_cons] at hnd
            apply lt_of_le_of_ne (hg e hmem)
            rintro rfl
            exact hnd.1 he
        next => exact hs.before q c hc r hr e hmem
  | done t order event force ht => exact hs.of_quiet rfl rfl rfl fun q => owed_quiet ht rfl rfl
  | get p c event items hc hi =>
      refine ⟨fun q c' hc' => ?_, fun q c' hc' r hr e he => ?_, hs.last⟩
      · obtain ⟨c0, hc0, hrec, -, -⟩ := getElem?_get hc hi hc'
        rw [hrec]
        exact hs.order q c0 hc0
      · obtain ⟨c0, hc0, hrec, -, -⟩ := getElem?_get hc hi hc'
        rw [hrec] at hr
        exact hs.before q c0 hc0 r hr e he

theorem sorted_ordered {s : Sys} (ho : Once s) (hs : Sorted s) : Ordered s := by
  intro q c hc
  have hpair := hs.order q c hc
  refine ⟨hpair, fun f hf hmem => ?_⟩
  obtain ⟨l, hl⟩ : ∃ l, (received c).getLast? = some l := by
    cases h : (received c).getLast? with
    | none => simp [List.getLast?_eq_none_iff.mp h] at hmem
    | some l => exact ⟨l, rfl⟩
  obtain ⟨init, hinit⟩ := List.getLast?_eq_some_iff.mp hl
  have hle : l < f + 1 := by
    rw [← hs.last f hf]
    exact (ho q c hc).2 l (List.mem_append_left _ (List.mem_of_getLast? hl))
  rw [hinit] at hpair hmem
  rcases List.mem_append.mp hmem with h | h
  · have := (List.pairwise_append.mp hpair).2.2 f h l (by simp)
    omega
  · rw [hl, List.mem_singleton.mp h]

/-- Subscribers see the order of `seen` in every run whose steps are in order. -/
theorem ordered_of_inOrder {acts : List Act} (h : EachStep (step 0) InOrder .registered acts) :
    Always (step 0) Ordered .registered acts := by
  refine always_of_eachStep (J := fun s => Wired s ∧ Once s ∧ Sorted s)
    (fun s hs => sorted_ordered hs.2.1 hs.2.2) (fun s a s' hs hg hstep => ?_) ?_ h
  · have hm := step_move hstep
    exact ⟨move_wired hs.1 hm, move_once hs.1 hs.2.1 hm, move_sorted hs.1 hs.2.1 hs.2.2 hg hm⟩
  · refine ⟨registered_wired, registered_once, ⟨?_, ?_, ?_⟩⟩ <;> simp [Sys.registered]

def delta (text : Str) : Dict := [(str "type", .str (str "delta")), (str "text", .str text)]

/-- The pump and a request broadcast to two queues at the same time, one
consumer takes an event in between, and the run is closed. -/
def twoThreads : List Act :=
  [.call (.subscribe 0), .advance 0 [], .advance 0 [],
    .call (.subscribe 0), .advance 1 [], .advance 1 [],
    .call (.broadcast (delta "a")), .call (.broadcast (runEvent "cancel_requested")),
    .advance 2 [], .advance 3 [], .advance 2 [0, 1], .advance 2 [],
    .advance 3 [0, 1], .advance 3 [], .get 0, .advance 2 [], .advance 3 [],
    .call (.closeActive "cancelled"), .advance 4 [], .advance 4 [1, 0], .advance 4 [], .advance 4 []]

theorem ordered_of_inOrder_twoThreads :
    ∃ s, run (step 0) .registered twoThreads = some s ∧ Ordered s ∧
      s.chans.map received = [[0, 1, 2], [0, 1, 2]] ∧ s.terminal = some 2 :=
  ⟨_, rfl, (@ordered_of_inOrder twoThreads (by decide +kernel)).final rfl, rfl, rfl⟩

/-- The thread that appended second may offer first. -/
theorem not_ordered_overtaken :
    ¬ ∀ acts : List Act, Always (step 0) Ordered .registered acts := by
  intro h
  have hr : run (step 0) .registered
      [.call (.subscribe 0), .advance 0 [], .advance 0 [],
        .call (.broadcast []), .advance 1 [], .advance 1 [0],
        .call (.broadcast []), .advance 2 [], .advance 2 [0], .advance 2 [], .advance 1 []] =
      some ⟨true, [[], []], none, [0], [⟨[1, 0], [], 0, false⟩],
        [.returned, .offering 0 false [], .offering 1 false []]⟩ := rfl
  have hp := ((h _).final hr 0 _ rfl).1
  simp [received] at hp

end AgentWeb.SeenOrder
