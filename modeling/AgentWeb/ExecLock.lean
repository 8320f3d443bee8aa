import AgentWeb.Resident

namespace AgentWeb.ExecLock

open Transitions Interleaving Resident

def names : Thread → Option Nat
  | .destroy sid | .destroyIfRunning sid _ | .touch sid | .exists sid | .relay sid _
  | .relayAlive sid _ | .relayTouch sid _ | .relayTag sid _ | .relaySend sid _ _
  | .execRun sid _ | .insertLock sid _ => some sid
  | .turn x _ => some x.sandboxId
  | _ => none

/-- Nobody names a sandbox before `create` has returned it. -/
def reserved : Outline Registry Thread where
  whole g := ∀ sid ∈ g.sandboxes, sid ∈ g.named
  each g th := ∀ sid, th.creates = some sid ∨ names th = some sid → sid ∈ g.named
  two a b := ∀ sid, (a.creates = some sid → names b ≠ some sid ∧ b.creates ≠ some sid) ∧
    (b.creates = some sid → names a ≠ some sid ∧ a.creates ≠ some sid)
  symm _ _ h sid := ⟨(h sid).2, (h sid).1⟩

theorem move_names {g g' : Registry} {reply : Reply} {th th' : Thread}
    (hm : Move g reply th g' th') : names th' = names th ∨ names th' = none := by
  cases hm with
  | read _ _ h => cases h <;> first | exact .inl rfl | exact .inr rfl
  | sweepClose _ _ _ _ _ _ h => rcases h with rfl | rfl <;> exact .inl rfl
  | destroy | fell | touch | relaySend | leave => exact .inr rfl
  | _ => exact .inl rfl

theorem move_creates {g g' : Registry} {reply : Reply} {th th' : Thread}
    (hm : Move g reply th g' th') : th'.creates = th.creates ∨ th'.creates = none := by
  cases hm with
  | read _ _ h => cases h <;> first | exact .inl rfl | exact .inr rfl
  | sweepClose _ _ _ _ _ _ h => rcases h with rfl | rfl <;> exact .inl rfl
  | _ => exact .inl rfl

theorem detach_sandboxes {g : Registry} {sid other : Nat} :
    other ∈ (g.detach sid).sandboxes ↔ other ∈ g.sandboxes ∧ other ≠ sid := by
  simp [Registry.detach]

theorem move_sandboxes {g g' : Registry} {reply : Reply} {th th' : Thread}
    (hm : Move g reply th g' th') {sid : Nat} (h : sid ∈ g'.sandboxes) :
    sid ∈ g.sandboxes ∨ th = .create sid := by
  cases hm with
  | enter new =>
      rw [Registry.enter, List.mem_append, List.mem_singleton] at h
      exact h.imp id fun he => by rw [he]
  | destroy | fell | take | detachVanished => exact .inl (detach_sandboxes.mp h).1
  | touch | relayTouch | touchTurn =>
      rw [Registry.touch_frame] at h
      exact .inl h
  | retire =>
      rw [Registry.retire_frame] at h
      exact .inl h
  | _ => exact .inl h

theorem move_named {g g' : Registry} {reply : Reply} {th th' : Thread}
    (hm : Move g reply th g' th') : g'.named = g.named := by
  cases hm with
  | touch | relayTouch | touchTurn => rw [Registry.touch_frame]
  | retire => rw [Registry.retire_frame]
  | _ => rfl

theorem call_creates (c : Call) : c.thread.creates = none ∨ ∃ sid, c = .create sid := by
  cases c with
  | create sid => exact .inr ⟨sid, rfl⟩
  | _ => exact .inl rfl

theorem call_names {c : Call} {sid : Nat}
    (h : c.thread.creates = some sid ∨ names c.thread = some sid) : c.sandboxId = some sid := by
  cases c with
  | reapIdle ttl => simp [Call.thread, Thread.creates, names] at h
  | _ => simpa [Call.thread, Call.sandboxId, Thread.creates, names] using h

theorem step_reserved {s s' : State} {a : Act} (h : Meets reserved s) (hstep : step s a = some s') :
    Meets reserved s' := by
  cases a with
  | tick now =>
      cases hstep
      exact ⟨h.whole, h.each, h.two⟩
  | call c =>
      obtain ⟨hallowed, rfl⟩ := step_call hstep
      refine h.arrive (fun sid hsid => List.mem_append_left _ (h.whole sid hsid)) ?_ ?_
      · intro sid hsid
        exact List.mem_append_right _ (by simp [call_names hsid])
      · intro a ha hold
        refine ⟨fun sid hsid => List.mem_append_left _ (hold sid hsid), fun sid => ⟨?_, ?_⟩⟩
        · intro hcreates
          rcases call_creates c with hnone | ⟨new, rfl⟩
          · simp [hnone] at hcreates
          · -- the new id is named by no thread so far
            cases hcreates
            have hfresh : sid ∉ s.shared.named := by simpa [Call.allowed] using hallowed
            exact ⟨fun hn => hfresh (hold sid (.inr hn)), fun hc => hfresh (hold sid (.inl hc))⟩
        · intro hcreates
          have hne : c.sandboxId ≠ some sid := by
            intro hc
            cases c with
            | create new =>
                cases hc
                have hfresh : sid ∉ s.shared.named := by simpa [Call.allowed] using hallowed
                exact hfresh (hold sid (.inl hcreates))
            | reapIdle ttl => simp [Call.sandboxId] at hc
            | _ =>
                cases hc
                simp only [Call.allowed, Call.sandboxId, Option.all_some, List.all_eq_true,
                  bne_iff_ne] at hallowed
                exact hallowed a ha hcreates
          exact ⟨fun hn => hne (call_names (.inr hn)), fun hc => hne (call_names (.inl hc))⟩
  | advance k reply =>
      obtain ⟨th, g, th', hk, hm, rfl⟩ := step_advance hstep
      have hth := h.each k th hk
      have hsub : ∀ sid, th'.creates = some sid ∨ names th' = some sid →
          th.creates = some sid ∨ names th = some sid := by
        intro sid hsid
        rcases move_names hm with hn | hn <;> rcases move_creates hm with hc | hc <;>
          rw [hn, hc] at hsid <;> simp_all
      refine h.move hk (fun sid hsid => ?_) (fun sid hsid => ?_) (fun j a _ _ ha htwo => ⟨?_, ?_⟩)
      · rw [move_named hm]
        rcases move_sandboxes hm hsid with hold | rfl
        · exact h.whole sid hold
        · exact hth sid (.inl rfl)
      · rw [move_named hm]
        exact hth sid (hsub sid hsid)
      · intro sid hsid
        rw [move_named hm]
        exact ha sid hsid
      · intro sid
        refine ⟨fun hc => (htwo sid).1 ?_, fun hc => ?_⟩
        · rcases move_creates hm with he | he
          · rwa [he] at hc
          · simp [he] at hc
        · obtain ⟨hn, hcr⟩ := (htwo sid).2 hc
          refine ⟨fun hn' => ?_, fun hc' => ?_⟩
          · rcases move_names hm with he | he
            · exact hn (he ▸ hn')
            · simp [he] at hn'
          · rcases move_creates hm with he | he
            · exact hcr (he ▸ hc')
            · simp [he] at hc'

theorem initial_reserved (clock : Int) (named : List Nat) :
    Meets reserved (State.initial clock named) where
  whole := nofun
  each := by simp [State.initial]
  two := by simp [State.initial]

def grip : Thread → Option (Nat × Bool)
  | .turn x .acquire => some (x.execLock, false)
  | .turn x _ => some (x.execLock, true)
  | _ => none

def gripped : Outline Registry Thread where
  whole g := ∀ sid l, g.execLocks sid = some l → l < g.lockHeld.length
  each g th := ∀ l held, grip th = some (l, held) →
    l < g.lockHeld.length ∧ (held = true → g.lockHeld[l]? = some true)
  two a b := ∀ l, ¬ (grip a = some (l, true) ∧ grip b = some (l, true))
  symm _ _ h l hl := h l hl.symm

theorem goes_grip {g : Registry} {reply : Reply} {x : Turn} {p p' : Phase}
    (h : Goes g reply x p p') : grip (.turn x p') = grip (.turn x p) := by
  cases h with
  | closed next => cases next <;> rfl
  | _ => rfl

theorem gripped_frame {s : State} {k : Nat} {th th' : Thread} {g : Registry} (h : Meets gripped s)
    (hk : s.threads[k]? = some th) (hlock : g.lockHeld = s.shared.lockHeld)
    (hexec : ∀ sid l, g.execLocks sid = some l → s.shared.execLocks sid = some l)
    (hgrip : grip th' = grip th ∨ grip th' = none) : Meets gripped ⟨g, s.threads.set k th'⟩ := by
  have hsame : ∀ l held, grip th' = some (l, held) → grip th = some (l, held) := by
    intro l held hl
    rcases hgrip with he | he
    · rwa [he] at hl
    · simp [he] at hl
  refine h.move hk (fun sid l hl => ?_) (fun l held hl => ?_) (fun j a _ _ ha htwo => ⟨?_, ?_⟩)
  · rw [hlock]
    exact h.whole sid l (hexec sid l hl)
  · rw [hlock]
    exact h.each k th hk l held (hsame l held hl)
  · intro l held hl
    rw [hlock]
    exact ha l held hl
  · exact fun l hl => htwo l ⟨hsame l true hl.1, hl.2⟩

theorem gripped_insertLock {s : State} {k : Nat} {th th' : Thread} {g : Registry} {sid : Nat}
    (h : Meets gripped s) (hk : s.threads[k]? = some th)
    (hlock : g.lockHeld = s.shared.lockHeld ++ [false])
    (hexec : g.execLocks =
      Function.update s.shared.execLocks sid (some s.shared.lockHeld.length))
    (hgrip : ∀ l held, grip th' = some (l, held) →
      l = s.shared.lockHeld.length ∧ held = false) : Meets gripped ⟨g, s.threads.set k th'⟩ := by
  refine h.move hk (fun other l hl => ?_) (fun l held hl => ?_) (fun j a _ _ ha _ => ⟨?_, ?_⟩)
  · rw [hlock, List.length_append, List.length_singleton]
    rw [hexec] at hl
    by_cases hne : other = sid
    · subst hne
      rw [Function.update_self, Option.some.injEq] at hl
      omega
    · rw [Function.update_of_ne hne] at hl
      have := h.whole other l hl
      omega
  · obtain ⟨rfl, rfl⟩ := hgrip l held hl
    simp [hlock]
  · intro l held hl
    obtain ⟨hlt, hheld⟩ := ha l held hl
    rw [hlock, List.length_append, List.length_singleton, List.getElem?_append_left hlt]
    exact ⟨by omega, hheld⟩
  · rintro l ⟨hl, -⟩
    simpa using (hgrip l true hl).2

theorem detach_execLocks {g : Registry} {sid other l : Nat}
    (h : (g.detach sid).execLocks other = some l) : other ≠ sid ∧ g.execLocks other = some l := by
  by_cases hne : other = sid
  · subst hne
    simp [Registry.detach] at h
  · exact ⟨hne, by simpa [Registry.detach, hne] using h⟩

theorem step_gripped {s s' : State} {a : Act} (h : Meets gripped s) (hstep : step s a = some s') :
    Meets gripped s' := by
  cases a with
  | tick now =>
      cases hstep
      exact ⟨h.whole, h.each, h.two⟩
  | call c =>
      obtain ⟨-, rfl⟩ := step_call hstep
      have hnone : grip c.thread = none := by cases c <;> rfl
      refine h.arrive h.whole ?_ (fun a _ ha => ⟨ha, ?_⟩)
      · intro l held hl
        simp [hnone] at hl
      · rintro l ⟨hl, -⟩
        simp [hnone] at hl
  | advance k reply =>
      obtain ⟨th, g, th', hk, hm, rfl⟩ := step_advance hstep
      cases hm with
      | read _ _ hr =>
          cases hr with
          | turn x p p' hg => exact gripped_frame h hk rfl (fun _ _ => id) (.inl (goes_grip hg))
          | lookUp sid runId l hmem hl =>
              refine h.move hk h.whole (fun m held hm => ?_) (fun j a _ _ ha _ => ⟨ha, ?_⟩)
              · cases hm
                exact ⟨h.whole sid l hl, by simp⟩
              · rintro m ⟨hm, -⟩
                simp [grip] at hm
          | _ => exact gripped_frame h hk rfl (fun _ _ => id) (.inr rfl)
      | insertLock sid runId =>
          refine gripped_insertLock h hk rfl rfl (fun l held hl => ?_)
          cases hl
          exact ⟨rfl, rfl⟩
      | adopt sid t => exact gripped_insertLock h hk rfl rfl (fun l held hl => by simp [grip] at hl)
      | acquire x hfree =>
          have hlt := (List.getElem?_eq_some_iff.mp hfree).choose
          refine h.move hk ?_ ?_ (fun j a _ _ ha _ => ⟨?_, ?_⟩)
          · intro sid l hl
            simpa [Registry.setLock] using h.whole sid l hl
          · intro l held hl
            cases hl
            simp [Registry.setLock, hlt]
          · intro l held hl
            obtain ⟨hl', hheld⟩ := ha l held hl
            refine ⟨by simpa [Registry.setLock] using hl', fun ht => ?_⟩
            by_cases hne : x.execLock = l
            · simp [Registry.setLock, hne, hl']
            · simpa [Registry.setLock, List.getElem?_set_ne hne] using hheld ht
          · rintro l ⟨hl, hla⟩
            cases hl
            simp [(ha _ true hla).2 rfl] at hfree
      | leave x answer =>
          refine h.move hk ?_ ?_ (fun j a _ _ ha htwo => ⟨?_, ?_⟩)
          · intro sid l hl
            simpa [Registry.setLock] using h.whole sid l hl
          · intro l held hl
            simp [grip] at hl
          · intro l held hl
            obtain ⟨hl', hheld⟩ := ha l held hl
            refine ⟨by simpa [Registry.setLock] using hl', fun ht => ?_⟩
            subst ht
            have hne : x.execLock ≠ l := fun he => htwo l ⟨by rw [← he]; rfl, hl⟩
            simpa [Registry.setLock, List.getElem?_set_ne hne] using hheld rfl
          · rintro l ⟨hl, -⟩
            simp [grip] at hl
      | destroy | fell | take =>
          exact gripped_frame h hk rfl (fun _ _ hl => (detach_execLocks hl).2) (.inr rfl)
      | detachVanished =>
          exact gripped_frame h hk rfl (fun _ _ hl => (detach_execLocks hl).2) (.inl rfl)
      | touch | relayTouch =>
          rw [Registry.touch_frame]
          exact gripped_frame h hk rfl (fun _ _ => id) (.inr rfl)
      | touchTurn =>
          rw [Registry.touch_frame]
          exact gripped_frame h hk rfl (fun _ _ => id) (.inl rfl)
      | retire =>
          rw [Registry.retire_frame]
          exact gripped_frame h hk rfl (fun _ _ => id) (.inl rfl)
      | sweepClose _ _ _ _ _ _ hth =>
          exact gripped_frame h hk rfl (fun _ _ => id) (.inr (by rcases hth with rfl | rfl <;> rfl))
      | close x t next p hp =>
          refine gripped_frame h hk rfl (fun _ _ => id) (.inl ?_)
          rcases hp with rfl | rfl
          · cases next <;> rfl
          · rfl
      | awaitReady x t hs hr p hp =>
          exact gripped_frame h hk rfl (fun _ _ => id) (.inl (by rcases hp with rfl | rfl <;> rfl))
      | enter | spawn | closing | relaySend =>
          exact gripped_frame h hk rfl (fun _ _ => id) (.inr rfl)
      | ready | unsupported | respawn | register | hello | helloLost | claim | submit | release =>
          exact gripped_frame h hk rfl (fun _ _ => id) (.inl rfl)

theorem initial_gripped (clock : Int) (named : List Nat) :
    Meets gripped (State.initial clock named) where
  whole := nofun
  each := by simp [State.initial]
  two := by simp [State.initial]

end AgentWeb.ExecLock
