import AgentWeb.Delivery

namespace AgentWeb.TerminalEvent

open PyText PyJson Protocol Replay Transitions Fanout Delivery
open Offer hiding step Act

/-- Once `_close_active` has offered the terminal event to a queue, it is there
or the consumer has taken it. -/
def Kept (s : Sys) : Prop :=
  ∀ (q : Nat) (c : Chan), s.chans[q]? = some c → c.closed = true →
    ∃ f, s.terminal = some f ∧ (f ∈ c.items ∨ f ∈ c.taken)

/-- No broadcast offers to a full queue whose oldest event is the terminal one
it got from `_close_active`. -/
def Spares (maxsize : Nat) (s : Sys) : Act → Prop
  | .advance t _ => match s.tasks[t]? with
    | some (.offering _ false (q :: _)) => ∀ c, s.chans[q]? = some c → c.closed = true →
        full maxsize c.items = true → c.items.head? ≠ s.terminal
    | _ => True
  | _ => True

theorem Kept.of_chans {s s' : Sys} (hs : Kept s) (hchans : s'.chans = s.chans)
    (hterm : ∀ f, s.terminal = some f → s'.terminal = some f) : Kept s' := by
  intro q c hc hcl
  obtain ⟨f, hf, hmem⟩ := hs q c (hchans ▸ hc) hcl
  exact ⟨f, hterm f hf, hmem⟩

theorem kept_deliver {maxsize event : Nat} {c : Chan} {f : Nat}
    (hspare : full maxsize c.items = true → c.items.head? ≠ some f)
    (hmem : f ∈ c.items ∨ f ∈ c.taken) :
    f ∈ (c.deliver maxsize false event).items ∨ f ∈ (c.deliver maxsize false event).taken := by
  rcases hmem with hmem | hmem
  · left
    rw [Chan.deliver, offer_unforced]
    split
    next hfull =>
      cases hi : c.items with
      | nil => simp [hi] at hmem
      | cons x xs =>
          have hne : x ≠ f := by
            have := hspare hfull
            simpa [hi] using this
          rw [hi] at hmem
          exact (List.mem_cons.mp hmem).resolve_left hne.symm
    next => exact List.mem_append_left _ hmem
  · exact .inr hmem

theorem move_kept {maxsize : Nat} {s s' : Sys} {a : Act} (hw : Wired s) (hs : Kept s)
    (hg : Spares maxsize s a) (hm : Move maxsize s a s') : Kept s' := by
  cases hm with
  | call call => exact hs.of_chans rfl fun _ h => h
  | lookUp t order call task active ht htask hactive => exact hs.of_chans rfl fun _ h => h
  | append t order call event force terminal ht horder hforce =>
      refine hs.of_chans rfl fun f hf => ?_
      rcases hforce with ⟨-, -, rfl⟩ | ⟨-, hc, -⟩
      · exact hf
      · simp [(hw.closing ht hc).2] at hf
  | attach t order sinceSeq ht =>
      intro q c hc hcl
      rcases getElem?_attach hc with hc | ⟨-, rfl⟩
      · exact hs q c hc hcl
      · simp at hcl
  | detach t order q ht => exact hs.of_chans rfl fun _ h => h
  | deliver t order event force p queues ht =>
      intro q c' hc' hcl
      obtain ⟨c, hc, rfl⟩ := getElem?_deliver hc'
      by_cases hpq : p = q
      · subst hpq
        rw [if_pos rfl] at hcl ⊢
        cases force with
        | true =>
            have hterm := (hw.targets event true _ (List.mem_of_getElem? ht)).2.2.2 rfl
            exact ⟨event, hterm, .inl (mem_offer_forced maxsize event c.items)⟩
        | false =>
            obtain ⟨f, hf, hmem⟩ := hs p c hc (by simpa [Chan.deliver] using hcl)
            simp only [Spares, ht] at hg
            have hspare := hg c hc (by simpa [Chan.deliver] using hcl)
            rw [hf] at hspare
            exact ⟨f, hf, kept_deliver hspare hmem⟩
      · rw [if_neg hpq] at hcl ⊢
        exact hs q c hc hcl
  | done t order event force ht => exact hs.of_chans rfl fun _ h => h
  | get p c event items hc hi =>
      intro q c' hc' hcl
      obtain ⟨c0, hc0, hrec, -, hclosed⟩ := getElem?_get hc hi hc'
      obtain ⟨f, hf, hmem⟩ := hs q c0 hc0 (hclosed ▸ hcl)
      refine ⟨f, hf, ?_⟩
      have hin : f ∈ received c' := by
        rw [hrec, received, List.mem_append]
        exact hmem.symm
      exact (List.mem_append.mp hin).symm

theorem spares_of_kept {maxsize : Nat} {s s' : Sys} {a : Act} (ho : Once s) (hs : Kept s)
    (hstep : step maxsize s a = some s') (hk : Kept s') : Spares maxsize s a := by
  cases a with
  | call call => trivial
  | get q => trivial
  | advance t order =>
      simp only [Spares]
      split
      next event q queues ht =>
        intro c hc hcl hfull hhead
        obtain ⟨f, hf, -⟩ := hs q c hc hcl
        rw [hf] at hhead
        obtain ⟨rest, hi⟩ : ∃ rest, c.items = f :: rest := by
          cases hi : c.items with
          | nil => simp [hi] at hhead
          | cons x xs =>
              rw [hi, List.head?_cons, Option.some.injEq] at hhead
              exact ⟨xs, by rw [hhead]⟩
        simp only [step, ht, Option.bind_some, advance, Option.some.injEq] at hstep
        subst hstep
        obtain ⟨f', hf', hmem⟩ := hk q (c.deliver maxsize false event)
          (by simp only [List.getElem?_modify, hc]; simp) (by simpa [Chan.deliver] using hcl)
        cases hf.symm.trans hf'
        have hitems : (c.deliver maxsize false event).items = rest := by
          rw [Chan.deliver, offer_unforced, if_pos hfull, hi, List.tail_cons]
        rw [hitems] at hmem
        have hnd := (List.nodup_append.mp (ho q c hc).1).1
        rw [received, hi, List.nodup_append] at hnd
        rcases hmem with hmem | hmem
        · exact (List.nodup_cons.mp hnd.2.1).1 hmem
        · exact hnd.2.2 f hmem f (by simp) rfl
      next => trivial

theorem spares_of_stuck {maxsize : Nat} {s : Sys} {a : Act} (hstep : step maxsize s a = none) :
    Spares maxsize s a := by
  cases a with
  | call call => trivial
  | get q => trivial
  | advance t order =>
      simp only [Spares]
      split
      next event q queues ht => simp [step, ht, advance] at hstep
      next => trivial

/-- The terminal event stays until it is taken, exactly as long as every
broadcast spares it. -/
theorem kept_iff (maxsize : Nat) (acts : List Act) :
    Always (step maxsize) Kept .registered acts ↔
      EachStep (step maxsize) (Spares maxsize) .registered acts := by
  refine always_iff_eachStep (J := fun s => Wired s ∧ Once s ∧ Kept s) (fun s hs => hs.2.2)
    (fun s a s' hs hg hstep => ?_) (fun s a s' hs hstep hk => spares_of_kept hs.2.1 hs.2.2 hstep hk)
    (fun s a hstep => spares_of_stuck hstep) ?_
  · have hm := step_move hstep
    exact ⟨move_wired hs.1 hm, move_once hs.1 hs.2.1 hm, move_kept hs.1 hs.2.2 hg hm⟩
  · exact ⟨registered_wired, registered_once, by intro q c hc; simp [Sys.registered] at hc⟩

/-- With room for one event, a broadcast that took its snapshot before the close
drops the terminal event. -/
theorem not_kept_late_broadcast :
    ¬ ∀ acts : List Act, Always (step 1) Kept .registered acts := by
  intro h
  have hr : run (step 1) .registered
      [.call (.subscribe 0), .advance 0 [], .advance 0 [],
        .call (.broadcast []), .advance 1 [], .advance 1 [0],
        .call (.closeActive "done"), .advance 2 [], .advance 2 [0], .advance 2 [],
        .advance 1 []] =
      some ⟨false, [[], runEvent "done"], some 1, [0], [⟨[], [], 0, true⟩],
        [.returned, .offering 0 false [], .offering 1 true []]⟩ := rfl
  obtain ⟨f, -, hmem⟩ := (h _).final hr 0 _ rfl rfl
  simp at hmem

end AgentWeb.TerminalEvent
