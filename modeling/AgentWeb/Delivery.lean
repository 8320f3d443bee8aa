import AgentWeb.Fanout

namespace AgentWeb.Delivery

open PyText PyJson Protocol Replay Transitions Fanout
open Offer hiding step Act

theorem owed_call (s : Sys) (call : Call) (q : Nat) :
    owed { s with tasks := s.tasks ++ [.calling call] } q = owed s q := by
  simp [owed, Thread.owed]

theorem owed_quiet {s : Sys} {t : Nat} {task task' : Thread} (ht : s.tasks[t]? = some task) {q : Nat}
    (h : task.owed q = []) (h' : task'.owed q = []) :
    (owed (s.setTask t task') q).Perm (owed s q) := by
  simpa [h, h'] using owed_set ht task' q

theorem owed_append {s : Sys} {t : Nat} {call : Call} (ht : s.tasks[t]? = some (.holding call))
    (event : Nat) (force : Bool) (order : List Nat) (q : Nat) :
    (owed (s.setTask t (.offering event force order)) q).Perm
      (owed s q ++ List.replicate (order.count q) event) := by
  simpa [Thread.owed] using owed_set ht (.offering event force order) q

theorem owed_deliver {s : Sys} {t event p : Nat} {force : Bool} {queues : List Nat}
    (ht : s.tasks[t]? = some (.offering event force (p :: queues))) (q : Nat) :
    (owed s q).Perm
      ((if p = q then [event] else []) ++ owed (s.setTask t (.offering event force queues)) q) := by
  have h := owed_set ht (.offering event force queues) q
  simp only [Thread.owed] at h
  have hcount : List.replicate ((p :: queues).count q) event =
      (if p = q then [event] else []) ++ List.replicate (queues.count q) event := by
    by_cases hp : p = q
    · simp [hp, List.replicate_succ]
    · simp [hp]
  rw [hcount, ← List.append_assoc] at h
  exact ((List.perm_append_right_iff _).mp h).symm.trans List.perm_append_comm

theorem foldl_offer_sublist {β : Type} (maxsize : Nat) (f : β → Nat) (es : List β)
    (items : List Nat) :
    (es.foldl (fun items e => (offer maxsize false (f e) items).1) items).Sublist
      (items ++ es.map f) := by
  induction es generalizing items with
  | nil => simp
  | cons e es ih =>
      apply (ih _).trans
      rw [List.map_cons, ← List.singleton_append, ← List.append_assoc]
      exact (offer_sublist maxsize false (f e) items).append_right _

theorem replayed_sublist (maxsize : Nat) (seen : List Dict) (sinceSeq : Int) :
    (replayed maxsize seen sinceSeq).Sublist (List.range seen.length) := by
  apply (foldl_offer_sublist maxsize Prod.snd _ []).trans
  rw [List.nil_append, List.range_eq_range', ← List.zipIdx_map_snd 0 seen]
  exact List.filter_sublist.map _

theorem foldl_offer_room {β : Type} {maxsize : Nat} (f : β → Nat) {es : List β} {items : List Nat}
    (h : 0 < maxsize → items.length + es.length ≤ maxsize) :
    es.foldl (fun items e => (offer maxsize false (f e) items).1) items = items ++ es.map f := by
  induction es generalizing items with
  | nil => simp
  | cons e es ih =>
      rw [List.length_cons] at h
      have hroom : full maxsize items = false := by
        simp only [full, Bool.and_eq_false_iff, decide_eq_false_iff_not]
        omega
      rw [List.foldl_cons, offer_not_full hroom, ih, List.map_cons, List.append_assoc]
      · rfl
      · rw [List.length_append, List.length_singleton]
        omega

def ReplayFits (maxsize : Nat) (seen : List Dict) (sinceSeq : Int) : Prop :=
  0 < maxsize → (seen.filter fun e => !alreadySeen e sinceSeq).length ≤ maxsize

instance (maxsize : Nat) (seen : List Dict) (sinceSeq : Int) :
    Decidable (ReplayFits maxsize seen sinceSeq) :=
  inferInstanceAs (Decidable (_ → _))

/-- The places of the events that a client at `sinceSeq` does not have. -/
def unseen (seen : List Dict) (sinceSeq : Int) : List Nat :=
  (seen.zipIdx.filter fun e => !alreadySeen e.1 sinceSeq).map Prod.snd

theorem replayed_fits {maxsize : Nat} {seen : List Dict} {sinceSeq : Int}
    (h : ReplayFits maxsize seen sinceSeq) :
    replayed maxsize seen sinceSeq = unseen seen sinceSeq := by
  rw [unseen, replayed, foldl_offer_room, List.nil_append]
  intro hpos
  have hfst : (seen.zipIdx.filter fun e => !alreadySeen e.1 sinceSeq).map Prod.fst =
      seen.filter fun e => !alreadySeen e sinceSeq := by
    conv_rhs => rw [← List.zipIdx_map_fst 0 seen, List.filter_map]
    rfl
  rw [List.length_nil, Nat.zero_add, ← List.length_map (f := Prod.fst), hfst]
  exact h hpos

theorem unseen_all (seen : List Dict) {sinceSeq : Int} (h : sinceSeq ≤ 0) :
    unseen seen sinceSeq = List.range seen.length := by
  rw [unseen, List.filter_eq_self.mpr, List.zipIdx_map_snd, List.range_eq_range']
  simp [alreadySeen, h]

theorem owed_new {s : Sys} (hw : Wired s) : owed s s.chans.length = [] := by
  rw [List.eq_nil_iff_forall_not_mem]
  intro e he
  obtain ⟨force, queues, ht, hq⟩ := mem_owed.mp he
  exact lt_irrefl _ ((hw.targets e force queues ht).2.2.1 _ hq)

def Once (s : Sys) : Prop :=
  ∀ q c, s.chans[q]? = some c →
    (received c ++ owed s q).Nodup ∧ ∀ e ∈ received c ++ owed s q, e < s.seen.length

theorem Once.of_quiet {s s' : Sys} (ho : Once s) (hchans : s'.chans = s.chans)
    (hseen : s'.seen = s.seen) (howed : ∀ q, (owed s' q).Perm (owed s q)) : Once s' := by
  intro q c hc
  rw [hchans] at hc
  rw [hseen]
  have hp := (howed q).append_left (received c)
  exact ⟨hp.nodup_iff.mpr (ho q c hc).1, fun e he => (ho q c hc).2 e (hp.subset he)⟩

theorem getElem?_get {s : Sys} {p : Nat} {c : Chan} {event : Nat} {items : List Nat}
    (hc : s.chans[p]? = some c) (hi : c.items = event :: items) {q : Nat} {c' : Chan}
    (h : (s.chans.set p { c with items := items, taken := c.taken ++ [event] })[q]? = some c') :
    ∃ c0, s.chans[q]? = some c0 ∧ received c' = received c0 ∧ c'.since = c0.since ∧
      c'.closed = c0.closed := by
  rw [List.getElem?_set] at h
  split at h
  next hpq =>
    subst hpq
    split at h
    · cases h
      exact ⟨c, hc, by simp [received, hi], rfl, rfl⟩
    · simp at h
  next => exact ⟨c', h, rfl, rfl, rfl⟩

theorem received_deliver_sublist (maxsize : Nat) (force : Bool) (event : Nat) (c : Chan) :
    (received (c.deliver maxsize force event)).Sublist (received c ++ [event]) := by
  rw [received, received, List.append_assoc]
  exact (offer_sublist maxsize force event c.items).append_left _

theorem getElem?_deliver {s : Sys} {maxsize event p q : Nat} {force : Bool} {c' : Chan}
    (h : (s.chans.modify p (Chan.deliver maxsize force event))[q]? = some c') :
    ∃ c, s.chans[q]? = some c ∧ c' = if p = q then c.deliver maxsize force event else c := by
  rw [List.getElem?_modify, Option.map_eq_map, Option.map_eq_some_iff] at h
  obtain ⟨c, hc, rfl⟩ := h
  exact ⟨c, hc, rfl⟩

theorem getElem?_attach {cs : List Chan} {c c' : Chan} {q : Nat} (h : (cs ++ [c])[q]? = some c') :
    cs[q]? = some c' ∨ q = cs.length ∧ c' = c := by
  rw [List.getElem?_append] at h
  split at h
  next => exact .inl h
  next hq =>
    right
    rw [List.getElem?_singleton] at h
    split at h
    next h0 =>
      cases h
      exact ⟨by omega, rfl⟩
    next => simp at h

theorem move_once {maxsize : Nat} {s s' : Sys} {a : Act} (hw : Wired s) (ho : Once s)
    (hm : Move maxsize s a s') : Once s' := by
  cases hm with
  | call call => exact ho.of_quiet rfl rfl fun q => by rw [owed_call]
  | lookUp t order call task active ht htask hactive =>
      refine ho.of_quiet rfl rfl fun q => ?_
      refine owed_quiet ht rfl ?_
      rcases htask with rfl | ⟨rfl, -, -⟩ <;> rfl
  | append t order call event force terminal ht horder hforce =>
      intro q c hc
      obtain ⟨hnd, hlt⟩ := ho q c hc
      have hp := (owed_append ht s.seen.length force order q).append_left (received c)
      rw [← List.append_assoc] at hp
      have hn : s.seen.length ∉ received c ++ owed s q := fun h => lt_irrefl _ (hlt _ h)
      have hcount : order.count q ≤ 1 :=
        List.nodup_iff_count.mp (horder.nodup_iff.mpr hw.distinct) q
      refine ⟨hp.nodup_iff.mpr (List.nodup_append.mpr ⟨hnd, ?_, ?_⟩), fun e he => ?_⟩
      · exact List.nodup_replicate.mpr hcount
      · intro e he e' he' heq
        rw [List.mem_replicate] at he'
        exact hn (he'.2 ▸ heq ▸ he)
      · rw [List.length_append, List.length_singleton]
        rcases List.mem_append.mp (hp.subset he) with he | he
        · exact (hlt e he).trans (Nat.lt_succ_self _)
        · rw [(List.mem_replicate.mp he).2]
          exact Nat.lt_succ_self _
  | attach t order sinceSeq ht =>
      intro q c hc
      have howed := owed_quiet (q := q) ht rfl (show Thread.returned.owed q = [] from rfl)
      rcases getElem?_attach hc with hc | ⟨rfl, rfl⟩
      · have hp := howed.append_left (received c)
        exact ⟨hp.nodup_iff.mpr (ho q c hc).1, fun e he => (ho q c hc).2 e (hp.subset he)⟩
      · rw [owed_new hw] at howed
        have hnil : owed { s.setTask t .returned with
            chans := s.chans ++ [⟨replayed maxsize s.seen sinceSeq, [], sinceSeq, false⟩]
            subscribers := s.subscribers ++ [s.chans.length] } s.chans.length = [] :=
          howed.eq_nil
        rw [hnil, List.append_nil, received, List.nil_append]
        have hsub := replayed_sublist maxsize s.seen sinceSeq
        exact ⟨List.nodup_range.sublist hsub, fun e he => List.mem_range.mp (hsub.subset he)⟩
  | detach t order q ht =>
      exact ho.of_quiet rfl rfl fun q => owed_quiet ht rfl rfl
  | deliver t order event force p queues ht =>
      intro q c' hc'
      obtain ⟨c, hc, rfl⟩ := getElem?_deliver hc'
      obtain ⟨hnd, hlt⟩ := ho q c hc
      have hp := (owed_deliver ht q).append_left (received c)
      rw [← List.append_assoc] at hp
      have hsub : (received (if p = q then c.deliver maxsize force event else c)).Sublist
          (received c ++ if p = q then [event] else []) := by
        split
        · exact received_deliver_sublist maxsize force event c
        · rw [List.append_nil]
      have hall := hsub.append_right (owed (s.setTask t (.offering event force queues)) q)
      exact ⟨(hp.nodup_iff.mp hnd).sublist hall, fun e he => hlt e (hp.symm.subset (hall.subset he))⟩
  | done t order event force ht =>
      exact ho.of_quiet rfl rfl fun q => owed_quiet ht rfl rfl
  | get p c event items hc hi =>
      intro q c' hc'
      change (received c' ++ owed s q).Nodup ∧ ∀ e ∈ received c' ++ owed s q, e < s.seen.length
      obtain ⟨c0, hc0, hrec, -, -⟩ := getElem?_get hc hi hc'
      rw [hrec]
      exact ho q c0 hc0

/-- A queue that asked for everything has or is owed each event of `seen`
exactly once. -/
def Covers (s : Sys) : Prop :=
  ∀ q ∈ s.subscribers, ∀ c, s.chans[q]? = some c → c.since ≤ 0 →
    (received c ++ owed s q).Perm (List.range s.seen.length)

theorem received_deliver {maxsize : Nat} {c : Chan} (h : full maxsize c.items = false) (force : Bool)
    (event : Nat) : received (c.deliver maxsize force event) = received c ++ [event] := by
  rw [received, received, Chan.deliver, offer_not_full h, List.append_assoc]

/-- No event meets a full queue. -/
def Fits (maxsize : Nat) (s : Sys) : Act → Prop
  | .advance t _ => match s.tasks[t]? with
    | some (.offering _ _ (q :: _)) => ∀ c, s.chans[q]? = some c → full maxsize c.items = false
    | some (.holding (.subscribe sinceSeq)) => ReplayFits maxsize s.seen sinceSeq
    | _ => True
  | _ => True

instance (maxsize : Nat) (s : Sys) : (a : Act) → Decidable (Fits maxsize s a)
  | .advance t _ =>
      match h : s.tasks[t]? with
      | some (.offering _ _ (q :: _)) =>
          decidable_of_iff (∀ c ∈ s.chans[q]?, full maxsize c.items = false) (by simp [Fits, h])
      | some (.holding (.subscribe sinceSeq)) =>
          decidable_of_iff (ReplayFits maxsize s.seen sinceSeq) (by simp [Fits, h])
      | some (.holding (.closeActive _)) | some (.holding (.broadcast _))
      | some (.holding (.unsubscribe _)) | some (.offering _ _ []) | some (.calling _)
      | some .returned | none => .isTrue (by simp [Fits, h])
  | .call _ | .get _ => .isTrue trivial

theorem fits_unbounded (s : Sys) (a : Act) : Fits 0 s a := by
  simp only [Fits]
  split
  next =>
    split
    next => exact fun c _ => full_unbounded c.items
    next => exact fun h => absurd h (lt_irrefl 0)
    next => trivial
  next => trivial

/-- No event meets a full queue `q`. -/
def Room (maxsize q : Nat) (s : Sys) : Act → Prop
  | .advance t _ => match s.tasks[t]? with
    | some (.offering _ _ (p :: _)) => p = q → ∀ c, s.chans[q]? = some c → full maxsize c.items = false
    | some (.holding (.subscribe sinceSeq)) => s.chans.length = q → ReplayFits maxsize s.seen sinceSeq
    | _ => True
  | _ => True

instance (maxsize q : Nat) (s : Sys) : (a : Act) → Decidable (Room maxsize q s a)
  | .advance t _ =>
      match h : s.tasks[t]? with
      | some (.offering _ _ (p :: _)) =>
          decidable_of_iff (p = q → ∀ c ∈ s.chans[q]?, full maxsize c.items = false) (by simp [Room, h])
      | some (.holding (.subscribe sinceSeq)) =>
          decidable_of_iff (s.chans.length = q → ReplayFits maxsize s.seen sinceSeq) (by simp [Room, h])
      | some (.holding (.closeActive _)) | some (.holding (.broadcast _))
      | some (.holding (.unsubscribe _)) | some (.offering _ _ []) | some (.calling _)
      | some .returned | none => .isTrue (by simp [Room, h])
  | .call _ | .get _ => .isTrue trivial

theorem Fits.room {maxsize : Nat} {s : Sys} {a : Act} (h : Fits maxsize s a) (q : Nat) :
    Room maxsize q s a := by
  cases a with
  | advance t order =>
      simp only [Fits] at h
      simp only [Room]
      split at h
      next => exact fun hp c hc => h c (hp ▸ hc)
      next => exact fun _ => h
      next => trivial
  | call => trivial
  | get => trivial

/-- A queue that was there has or is owed what it had or was owed, and the events that are new. -/
def Kept (s s' : Sys) (q : Nat) (c' : Chan) : Prop :=
  ∃ c, q ∈ s.subscribers ∧ s.chans[q]? = some c ∧ c.since = c'.since ∧
    (received c' ++ owed s' q).Perm
      (received c ++ owed s q ++ List.range' s.seen.length (s'.seen.length - s.seen.length))

theorem kept_of_quiet {s s' : Sys} {q : Nat} {c' : Chan} (hq : q ∈ s'.subscribers)
    (hc' : s'.chans[q]? = some c') (hsub : s'.subscribers ⊆ s.subscribers)
    (hchans : s'.chans = s.chans) (hseen : s'.seen = s.seen)
    (howed : (owed s' q).Perm (owed s q)) : Kept s s' q c' := by
  rw [hchans] at hc'
  refine ⟨c', hsub hq, hc', rfl, ?_⟩
  rw [hseen, Nat.sub_self, List.range'_zero, List.append_nil]
  exact howed.append_left _

theorem move_hands {maxsize q : Nat} {s s' : Sys} {a : Act} (hw : Wired s) (hf : Room maxsize q s a)
    (hm : Move maxsize s a s') {c' : Chan} (hq : q ∈ s'.subscribers) (hc' : s'.chans[q]? = some c') :
    Kept s s' q c' ∨ q = s.chans.length ∧ s'.seen = s.seen ∧
      (received c' ++ owed s' q).Perm (unseen s.seen c'.since) := by
  cases hm with
  | call call =>
      left
      exact kept_of_quiet hq hc' (fun _ h => h) rfl rfl (by rw [owed_call])
  | lookUp t order call task active ht htask hactive =>
      left
      refine kept_of_quiet hq hc' (fun _ h => h) rfl rfl (owed_quiet ht rfl ?_)
      rcases htask with rfl | ⟨rfl, -, -⟩ <;> rfl
  | append t order call event force terminal ht horder hforce =>
      have hcount : order.count q = 1 := by
        rw [horder.count_eq]
        exact List.count_eq_one_of_mem hw.distinct hq
      have howed := (owed_append ht s.seen.length force order q).append_left (received c')
      rw [hcount, ← List.append_assoc] at howed
      refine .inl ⟨c', hq, hc', rfl, ?_⟩
      rw [List.length_append, List.length_singleton, Nat.add_sub_cancel_left]
      exact howed
  | attach t order sinceSeq ht =>
      have howed := owed_quiet (q := q) ht rfl (show Thread.returned.owed q = [] from rfl)
      rcases getElem?_attach hc' with hc | ⟨rfl, rfl⟩
      · have hlt := (List.getElem?_eq_some_iff.mp hc).1
        have hq' : q ∈ s.subscribers := by
          rcases List.mem_append.mp hq with hq | hq
          · exact hq
          · rw [List.mem_singleton.mp hq] at hlt
            exact absurd hlt (lt_irrefl _)
        refine .inl ⟨c', hq', hc, rfl, ?_⟩
        change (received c' ++ owed (s.setTask t .returned) q).Perm
          (received c' ++ owed s q ++ List.range' s.seen.length (s.seen.length - s.seen.length))
        rw [Nat.sub_self, List.range'_zero, List.append_nil]
        exact howed.append_left _
      · simp only [Room, ht, forall_const] at hf
        rw [owed_new hw] at howed
        refine .inr ⟨rfl, rfl, ?_⟩
        change (received _ ++ owed (s.setTask t .returned) _).Perm _
        rw [howed.eq_nil, List.append_nil, received, List.nil_append, replayed_fits hf]
  | detach t order q ht =>
      left
      exact kept_of_quiet hq hc' List.erase_subset rfl rfl (owed_quiet ht rfl rfl)
  | deliver t order event force p queues ht =>
      obtain ⟨c, hc, rfl⟩ := getElem?_deliver hc'
      have howed := (owed_deliver ht q).append_left (received c)
      simp only [Room, ht] at hf
      have hrec : received (if p = q then c.deliver maxsize force event else c) =
          received c ++ if p = q then [event] else [] := by
        split
        next heq => exact received_deliver (hf heq c hc) force event
        next => rw [List.append_nil]
      rw [← List.append_assoc] at howed
      refine .inl ⟨c, hq, hc, ?_, ?_⟩
      · split <;> rfl
      · change (received _ ++ owed (s.setTask t (.offering event force queues)) q).Perm
          (received c ++ owed s q ++ List.range' s.seen.length (s.seen.length - s.seen.length))
        rw [Nat.sub_self, List.range'_zero, List.append_nil, hrec]
        exact howed.symm
  | done t order event force ht =>
      left
      exact kept_of_quiet hq hc' (fun _ h => h) rfl rfl (owed_quiet ht rfl rfl)
  | get p c event items hc hi =>
      obtain ⟨c0, hc0, hrec, hsince, -⟩ := getElem?_get hc hi hc'
      refine .inl ⟨c0, hq, hc0, hsince.symm, ?_⟩
      change (received c' ++ owed s q).Perm
        (received c0 ++ owed s q ++ List.range' s.seen.length (s.seen.length - s.seen.length))
      rw [Nat.sub_self, List.range'_zero, List.append_nil, hrec]

theorem move_seen {maxsize : Nat} {s s' : Sys} {a : Act} (hm : Move maxsize s a s') :
    s.seen <+: s'.seen := by
  cases hm with
  | append => exact List.prefix_append ..
  | _ => exact List.prefix_rfl

theorem move_covers {maxsize : Nat} {s s' : Sys} {a : Act} (hw : Wired s) (hs : Covers s)
    (hf : Fits maxsize s a) (hm : Move maxsize s a s') : Covers s' := by
  intro q hq c' hc' hsince
  rcases move_hands hw (hf.room q) hm hq hc' with ⟨c, hq, hc, heq, hp⟩ | ⟨-, hseen, hp⟩
  · have hlen := (move_seen hm).length_le
    have hrange : List.range s'.seen.length =
        List.range s.seen.length ++ List.range' s.seen.length (s'.seen.length - s.seen.length) := by
      conv_lhs => rw [← Nat.add_sub_cancel' hlen, List.range_add, ← List.range'_eq_map_range]
    rw [hrange]
    exact hp.trans ((hs q hq c hc (heq ▸ hsince)).append_right _)
  · rwa [hseen, ← unseen_all s.seen hsince]

theorem registered_covers : Covers .registered := by
  intro q hq
  simp [Sys.registered] at hq

theorem registered_once : Once .registered := by
  intro q c hc
  simp [Sys.registered] at hc

theorem run_covers {s : Sys} {acts : List Act} (hr : run (step 0) .registered acts = some s) :
    Covers s :=
  (run_invariant (I := fun s => Wired s ∧ Covers s)
    (fun s a _ h hstep => ⟨move_wired h.1 (step_move hstep),
      move_covers h.1 h.2 (fits_unbounded s a) (step_move hstep)⟩)
    ⟨registered_wired, registered_covers⟩ hr).2

def left : Thread → List Nat
  | .offering _ _ queues => queues
  | _ => []

def todo (s : Sys) : List Nat := s.tasks.flatMap left

theorem owed_of_todo {s : Sys} (h : todo s = []) (q : Nat) : owed s q = [] := by
  rw [List.eq_nil_iff_forall_not_mem] at h ⊢
  intro e he
  obtain ⟨force, queues, ht, hq⟩ := mem_owed.mp he
  exact h q (List.mem_flatMap.mpr ⟨_, ht, hq⟩)

theorem exists_offering {s : Sys} (h : todo s ≠ []) :
    ∃ (t event : Nat) (force : Bool) (q : Nat) (queues : List Nat),
      s.tasks[t]? = some (.offering event force (q :: queues)) := by
  obtain ⟨p, hp⟩ := List.exists_mem_of_ne_nil _ h
  obtain ⟨task, ht, hp⟩ := List.mem_flatMap.mp hp
  obtain ⟨t, ht⟩ := List.getElem?_of_mem ht
  cases task with
  | offering event force queues =>
      cases queues with
      | nil => simp [left] at hp
      | cons q queues => exact ⟨t, event, force, q, queues, ht⟩
  | _ => simp [left] at hp

theorem todo_deliver {s : Sys} {t event q : Nat} {force : Bool} {queues : List Nat}
    (ht : s.tasks[t]? = some (.offering event force (q :: queues))) :
    (todo (s.setTask t (.offering event force queues))).length + 1 = (todo s).length := by
  have h := (flatMap_set_perm left ht (.offering event force queues)).length_eq
  simp only [List.length_append, left, List.length_cons] at h
  change ((s.tasks.set t _).flatMap left).length + 1 = (s.tasks.flatMap left).length
  omega

theorem exists_drained (maxsize : Nat) (s : Sys) :
    ∃ acts s', run (step maxsize) s acts = some s' ∧ s'.seen = s.seen ∧
      s'.subscribers = s.subscribers ∧ (∀ (q : Nat) (c : Chan), s.chans[q]? = some c →
        ∃ c' : Chan, s'.chans[q]? = some c' ∧ c'.since = c.since) ∧ todo s' = [] := by
  induction hn : (todo s).length generalizing s with
  | zero => exact ⟨[], s, rfl, rfl, rfl, fun q c hc => ⟨c, hc, rfl⟩, List.length_eq_zero_iff.mp hn⟩
  | succ n ih =>
      obtain ⟨t, event, force, q, queues, ht⟩ :=
        exists_offering (s := s) (by rintro h; simp [h] at hn)
      have hstep : step maxsize s (.advance t []) =
          some { s.setTask t (.offering event force queues) with
            chans := s.chans.modify q (Chan.deliver maxsize force event) } := by
        simp [step, ht, advance]
      have htodo := todo_deliver ht
      obtain ⟨acts, s', hr, hseen, hsub, hchans, hnil⟩ :=
        ih { s.setTask t (.offering event force queues) with
          chans := s.chans.modify q (Chan.deliver maxsize force event) }
          (show (todo (s.setTask t _)).length = n by omega)
      refine ⟨.advance t [] :: acts, s', run_cons_eq_some.mpr ⟨_, hstep, hr⟩, hseen, hsub,
        fun p c hc => ?_, hnil⟩
      obtain ⟨c', hc', hsince⟩ := hchans p (if q = p then c.deliver maxsize force event else c)
        (by simp only [List.getElem?_modify, hc]; rfl)
      refine ⟨c', hc', hsince.trans ?_⟩
      split <;> rfl

def Recorded (t : Nat) (payload : Dict) (s : Sys) : Prop :=
  s.tasks[t]? = some (.holding (.broadcast payload)) ∨ payload ∈ s.seen

theorem move_recorded {maxsize t : Nat} {payload : Dict} {s s' : Sys} {a : Act} (hm : Move maxsize s a s')
    (h : Recorded t payload s) : Recorded t payload s' := by
  rcases h with ht | hseen
  · have hkept {t' : Nat} {task task' : Thread} (ht' : s.tasks[t']? = some task)
        (hother : task ≠ .holding (.broadcast payload)) :
        (s.tasks.set t' task')[t]? = some (.holding (.broadcast payload)) := by
      have hne : t' ≠ t := by
        rintro rfl
        exact hother (Option.some.inj (ht'.symm.trans ht))
      rwa [List.getElem?_set_ne hne]
    cases hm with
    | call call => exact .inl (List.getElem?_append_left (List.getElem?_eq_some_iff.mp ht).1 ▸ ht)
    | lookUp t' order call task active ht' htask hactive => exact .inl (hkept ht' (by simp))
    | append t' order call event force terminal ht' horder hforce =>
        by_cases hcall : call = .broadcast payload
        · rcases hforce with ⟨-, hevent, -⟩ | ⟨-, -, -, finalState, hclose, -⟩
          · cases hevent.symm.trans hcall
            exact .inr (List.mem_append_right _ (List.mem_singleton_self _))
          · cases hclose.symm.trans hcall
        · exact .inl (hkept ht' (by simpa using hcall))
    | attach t' order sinceSeq ht' => exact .inl (hkept ht' (by simp))
    | detach t' order q ht' => exact .inl (hkept ht' (by simp))
    | deliver t' order event force q queues ht' => exact .inl (hkept ht' (by simp))
    | done t' order event force ht' => exact .inl (hkept ht' (by simp))
    | get q c event items hc hi => exact .inl ht
  · exact .inr ((move_seen hm).subset hseen)

/-- A broadcast that finds its run registered has appended the event when it returns. -/
theorem broadcast_recorded {maxsize t : Nat} {payload : Dict} {order : List Nat} {s s₁ s' : Sys}
    {acts : List Act} (hact : s.active = true) (ht : s.tasks[t]? = some (.calling (.broadcast payload)))
    (hstep : step maxsize s (.advance t order) = some s₁) (hr : run (step maxsize) s₁ acts = some s')
    (hreturned : s'.tasks[t]? = some .returned) : payload ∈ s'.seen := by
  have hfound : Recorded t payload s₁ := by
    simp only [step, ht, Option.bind_some, advance, hact, if_true, Option.some.injEq] at hstep
    rw [← hstep]
    exact .inl (List.getElem?_set_self (List.getElem?_eq_some_iff.mp ht).1)
  have hrecorded := run_invariant (I := Recorded t payload)
    (fun _ _ _ h hstep => move_recorded (step_move hstep) h) hfound hr
  rcases hrecorded with hholding | hseen
  · cases hreturned.symm.trans hholding
  · exact hseen

/-- Attached with no bound and from the start, a subscriber has or is owed each
event exactly once, and once the threads are done it has them all. -/
theorem handed_once {acts : List Act} {s : Sys} (hr : run (step 0) .registered acts = some s)
    {q : Nat} {c : Chan} (hq : q ∈ s.subscribers) (hc : s.chans[q]? = some c) (hs : c.since ≤ 0) :
    (received c ++ owed s q).Perm (List.range s.seen.length) ∧
      ∃ more s' c', run (step 0) s more = some s' ∧ s'.seen = s.seen ∧ q ∈ s'.subscribers ∧
        s'.chans[q]? = some c' ∧ (received c').Perm (List.range s.seen.length) := by
  refine ⟨run_covers hr q hq c hc hs, ?_⟩
  obtain ⟨more, s', hmore, hseen, hsub, hchans, hnil⟩ := exists_drained 0 s
  obtain ⟨c', hc', hsince⟩ := hchans q c hc
  have hq' : q ∈ s'.subscribers := by rwa [hsub]
  have hr' : run (step 0) .registered (acts ++ more) = some s' := by
    rw [run_append, hr]
    exact hmore
  have hcov := run_covers hr' q hq' c' hc' (by rwa [hsince])
  rw [owed_of_todo hnil, List.append_nil, hseen] at hcov
  exact ⟨more, s', c', hmore, hseen, hq', hc', hcov⟩

theorem handed_once_midway :
    ∃ acts s c, run (step 0) .registered acts = some s ∧ 0 ∈ s.subscribers ∧
      s.chans[0]? = some c ∧ c.since ≤ 0 ∧
      (received c ++ owed s 0).Perm (List.range s.seen.length) ∧
        ∃ more s' c', run (step 0) s more = some s' ∧ s'.seen = s.seen ∧ 0 ∈ s'.subscribers ∧
          s'.chans[0]? = some c' ∧ (received c').Perm (List.range s.seen.length) := by
  let acts : List Act := [.call (.broadcast []), .advance 0 [], .advance 0 [],
    .call (.subscribe 0), .advance 1 [], .advance 1 [],
    .call (.closeActive "done"), .advance 2 [], .advance 2 [0]]
  have hr : run (step 0) .registered acts = some ⟨false, [[], runEvent "done"], some 1, [0],
      [⟨[0], [], 0, false⟩], [.offering 0 false [], .returned, .offering 1 true [0]]⟩ := rfl
  exact ⟨acts, _, ⟨[0], [], 0, false⟩, hr, by decide, rfl, by decide,
    handed_once hr (by decide) rfl (by decide)⟩

end AgentWeb.Delivery
