import AgentWeb.ExecLock

namespace AgentWeb.OneExec

open Transitions Interleaving Resident ExecLock

def turnOf : Thread → Option Turn
  | .turn x _ => some x
  | _ => none

def claims : Thread → Option Turn
  | .turn x (.tag _) | .turn x (.submit _ _) | .turn x (.pump _) | .turn x (.release _) => some x
  | _ => none

/-- Of the execs on a sandbox at most one has its slot, a claim finds the slot
empty, and a release finds no other run in it. -/
structure Exclusive (s : State) : Prop where
  single : ∀ (i j : Nat) (a b : Thread) (x y : Turn), i ≠ j → s.threads[i]? = some a →
    s.threads[j]? = some b → claims a = some x → claims b = some y → x.sandboxId ≠ y.sandboxId
  claim : ∀ (x : Turn) (t : Nat), .turn x (.claim t) ∈ s.threads →
    x.sandboxId ∈ s.shared.sandboxes → s.shared.live x.sandboxId = none
  release : ∀ (x : Turn) (answer : Answer), .turn x (.release answer) ∈ s.threads →
    ∀ r, s.shared.live x.sandboxId = some r → r = x.runId

def inserts : Thread → Option Nat
  | .insertLock sid _ => some sid
  | _ => none

/-- No `exec_run` puts a new exec lock in the map while another one waits for
the lock of the same sandbox or holds it. -/
def Alone (s : State) : Act → Prop
  | .advance k _ => ∀ th ∈ s.threads[k]?, ∀ sid ∈ inserts th, sid ∈ s.shared.sandboxes →
      ∀ a ∈ s.threads, ∀ x ∈ turnOf a, x.sandboxId ≠ sid
  | _ => True

instance (s : State) : (a : Act) → Decidable (Alone s a)
  | .advance k _ => inferInstanceAs (Decidable (∀ th ∈ s.threads[k]?, ∀ sid ∈ inserts th,
      sid ∈ s.shared.sandboxes → ∀ a ∈ s.threads, ∀ x ∈ turnOf a, x.sandboxId ≠ sid))
  | .call _ | .tick _ => .isTrue trivial

/-- The execs on a sandbox the runner holds share the exec lock of the map, and
those that have claimed are on different sandboxes. -/
def claimed : Outline Registry Thread where
  whole _ := True
  each g th := ∀ x, turnOf th = some x → x.sandboxId ∈ g.sandboxes →
    g.execLocks x.sandboxId = some x.execLock
  two a b := ∀ x y, claims a = some x → claims b = some y → x.sandboxId ≠ y.sandboxId
  symm _ _ h x y hx hy := Ne.symm (h y x hy hx)

def Owned (s : State) : Prop :=
  ∀ sid r, s.shared.live sid = some r →
    ∃ th ∈ s.threads, ∃ x, claims th = some x ∧ x.sandboxId = sid ∧ x.runId = r

theorem turnOf_of_claims {th : Thread} {x : Turn} (h : claims th = some x) :
    turnOf th = some x ∧ grip th = some (x.execLock, true) := by
  cases th with
  | turn y p => cases p <;> simp_all [claims, turnOf, grip]
  | _ => simp [claims] at h

theorem two_of_unclaimed {a b : Thread} (h : claims a = none) : claimed.two a b := by
  intro x y hx
  simp [h] at hx

theorem goes_claims {g : Registry} {reply : Reply} {x : Turn} {p p' : Phase}
    (h : Goes g reply x p p') : claims (.turn x p') = claims (.turn x p) := by
  cases h with
  | closed next => cases next <;> rfl
  | _ => rfl

theorem claimed_frame {s : State} {k : Nat} {th th' : Thread} {g : Registry}
    (h : Meets claimed s) (hk : s.threads[k]? = some th)
    (hmaps : ∀ sid ∈ g.sandboxes, sid ∈ s.shared.sandboxes ∧
      g.execLocks sid = s.shared.execLocks sid)
    (hturn : ∀ x, turnOf th' = some x → turnOf th = some x)
    (hclaims : ∀ x, claims th' = some x → claims th = some x) :
    Meets claimed ⟨g, s.threads.set k th'⟩ := by
  have hstable : ∀ a, claimed.each s.shared a → claimed.each g a := by
    intro a ha x hx hmem
    obtain ⟨hold, hlocks⟩ := hmaps x.sandboxId hmem
    rw [hlocks]
    exact ha x hx hold
  refine h.move hk trivial ?_ (fun j a _ _ ha htwo => ⟨hstable a ha, ?_⟩)
  · intro x hx hmem
    obtain ⟨hold, hlocks⟩ := hmaps x.sandboxId hmem
    rw [hlocks]
    exact h.each k th hk x (hturn x hx) hold
  · exact fun x y hx hy => htwo x y (hclaims x hx) hy

theorem turn_ne_created {s : State} (hres : Meets reserved s) {k j : Nat} {th a : Thread} {sid : Nat}
    {x : Turn} (hk : s.threads[k]? = some th) (hc : th.creates = some sid)
    (hj : s.threads[j]? = some a) (hx : turnOf a = some x) : x.sandboxId ≠ sid := by
  rintro rfl
  cases a with
  | turn y p =>
      cases hx
      have hkj : k ≠ j := by
        rintro rfl
        cases hk.symm.trans hj
        simp [Thread.creates] at hc
      exact ((hres.two k j th _ hkj hk hj x.sandboxId).1 hc).1 rfl
  | _ => simp [turnOf] at hx

theorem step_claimed {s s' : State} {a : Act} (hres : Meets reserved s) (hgrip : Meets gripped s)
    (h : Meets claimed s) (hg : Alone s a) (hstep : step s a = some s') : Meets claimed s' := by
  cases a with
  | tick now =>
      cases hstep
      exact ⟨h.whole, h.each, h.two⟩
  | call c =>
      obtain ⟨-, rfl⟩ := step_call hstep
      have hnone : turnOf c.thread = none := by cases c <;> rfl
      refine h.arrive trivial ?_ (fun a _ ha => ⟨ha, ?_⟩)
      · intro x hx
        simp [hnone] at hx
      · intro x y hx
        simp [(turnOf_of_claims hx).1] at hnone
  | advance k reply =>
      obtain ⟨th, g, th', hk, hm, rfl⟩ := step_advance hstep
      have hsame : ∀ sid ∈ s.shared.sandboxes, sid ∈ s.shared.sandboxes ∧
          s.shared.execLocks sid = s.shared.execLocks sid := fun sid hsid => ⟨hsid, rfl⟩
      have hdetach : ∀ gone, ∀ sid ∈ (s.shared.detach gone).sandboxes,
          sid ∈ s.shared.sandboxes ∧
            (s.shared.detach gone).execLocks sid = s.shared.execLocks sid := by
        intro gone sid hsid
        obtain ⟨hmem, hne⟩ := detach_sandboxes.mp hsid
        exact ⟨hmem, by simp [Registry.detach, hne]⟩
      cases hm with
      | read _ _ hr =>
          cases hr with
          | turn x p p' hgo =>
              exact claimed_frame h hk hsame (fun _ => id) (by rw [goes_claims hgo]; exact fun _ => id)
          | lookUp sid runId l hmem hl =>
              refine h.move hk trivial ?_ (fun j a _ _ ha _ => ⟨ha, two_of_unclaimed rfl⟩)
              intro x hx _
              cases hx
              exact hl
          | _ => exact claimed_frame h hk hsame (of_none rfl) (of_none rfl)
      | enter new =>
          refine h.move hk trivial (of_none rfl) (fun j a _ hj ha _ => ⟨fun x hx hmem => ?_, two_of_unclaimed rfl⟩)
          have hne := turn_ne_created hres hk rfl hj hx
          rw [Registry.enter, List.mem_append, List.mem_singleton] at hmem
          exact ha x hx (hmem.resolve_right hne)
      | adopt sid t =>
          refine h.move hk trivial (of_none rfl) (fun j a _ hj ha _ => ⟨fun x hx hmem => ?_, two_of_unclaimed rfl⟩)
          have hne := turn_ne_created hres hk rfl hj hx
          simpa [Registry.register, Registry.insertLock, hne] using ha x hx hmem
      | insertLock sid runId =>
          refine h.move hk trivial ?_ (fun j a _ hj ha _ => ⟨fun x hx hmem => ?_, two_of_unclaimed rfl⟩)
          · intro x hx _
            cases hx
            simp [Registry.insertLock]
          · have hne : x.sandboxId ≠ sid := by
              intro he
              exact hg _ hk sid rfl (he ▸ hmem) a (List.mem_of_getElem? hj) x hx he
            simpa [Registry.insertLock, hne] using ha x hx hmem
      | claim x t hmem =>
          refine h.move hk trivial (fun u hu => h.each k (.turn x (.claim t)) hk u hu)
            (fun j a hjk hj ha _ => ⟨ha, fun u y hu hy he => ?_⟩)
          cases hu
          obtain ⟨hturn, hgripa⟩ := turnOf_of_claims hy
          have hlx := h.each k _ hk x rfl hmem
          have hly := ha y hturn (he ▸ hmem)
          rw [← he, hlx, Option.some.injEq] at hly
          exact hgrip.two k j _ a (Ne.symm hjk) hk hj x.execLock ⟨rfl, hly ▸ hgripa⟩
      | destroy | fell | take => exact claimed_frame h hk (hdetach _) (of_none rfl) (of_none rfl)
      | detachVanished => exact claimed_frame h hk (hdetach _) (fun _ => id) (of_none rfl)
      | touch | relayTouch =>
          rw [Registry.touch_frame]
          exact claimed_frame h hk hsame (of_none rfl) (of_none rfl)
      | touchTurn =>
          rw [Registry.touch_frame]
          exact claimed_frame h hk hsame (fun _ => id) (of_none rfl)
      | retire =>
          rw [Registry.retire_frame]
          exact claimed_frame h hk hsame (fun _ => id) (of_none rfl)
      | sweepClose _ _ _ _ _ _ hth =>
          rcases hth with rfl | rfl <;> exact claimed_frame h hk hsame (of_none rfl) (of_none rfl)
      | close x t next p hp =>
          rcases hp with rfl | rfl
          · cases next <;> exact claimed_frame h hk hsame (fun _ => id) (of_none rfl)
          · exact claimed_frame h hk hsame (fun _ => id) (of_none rfl)
      | awaitReady x t hs hr p hp =>
          rcases hp with rfl | rfl <;> exact claimed_frame h hk hsame (fun _ => id) (of_none rfl)
      | spawn | closing | relaySend | leave => exact claimed_frame h hk hsame (of_none rfl) (of_none rfl)
      | acquire | ready | unsupported | respawn | register | hello | helloLost | release =>
          exact claimed_frame h hk hsame (fun _ => id) (of_none rfl)
      | submit => exact claimed_frame h hk hsame (fun _ => id) (fun _ => id)

theorem owned_frame {s : State} {k : Nat} {th th' : Thread} {g : Registry} (h : Owned s)
    (hk : s.threads[k]? = some th)
    (hlive : ∀ sid r, g.live sid = some r → s.shared.live sid = some r)
    (hclaims : ∀ x, claims th = some x → claims th' = some x) :
    Owned ⟨g, s.threads.set k th'⟩ := by
  intro sid r hr
  refine exists_set hk (h sid r (hlive sid r hr)) ?_
  rintro ⟨x, hx, hsid, hrun⟩
  exact ⟨x, hclaims x hx, hsid, hrun⟩

theorem live_detach {g : Registry} {gone sid r : Nat} (h : (g.detach gone).live sid = some r) :
    sid ≠ gone ∧ g.live sid = some r := by
  by_cases hne : sid = gone
  · subst hne
    simp [Registry.live, Registry.detach] at h
  · exact ⟨hne, by simpa [Registry.live, Registry.detach, hne] using h⟩

theorem step_owned {s s' : State} {a : Act} (h : Owned s) (hstep : step s a = some s') :
    Owned s' := by
  cases a with
  | tick now =>
      cases hstep
      exact h
  | call c =>
      obtain ⟨-, rfl⟩ := step_call hstep
      intro sid r hr
      obtain ⟨th, hmem, hth⟩ := h sid r hr
      exact ⟨th, List.mem_append_left _ hmem, hth⟩
  | advance k reply =>
      obtain ⟨th, g, th', hk, hm, rfl⟩ := step_advance hstep
      cases hm with
      | read _ _ hr =>
          cases hr with
          | turn x p p' hgo =>
              exact owned_frame h hk (fun _ _ => id) (by rw [goes_claims hgo]; exact fun _ => id)
          | _ => exact owned_frame h hk (fun _ _ => id) nofun
      | adopt sid t =>
          refine owned_frame h hk (fun other r hr => ?_) nofun
          by_cases hne : other = sid
          · subst hne
            simp [Registry.live, Registry.register, Registry.insertLock] at hr
          · simpa [Registry.live, Registry.register, Registry.insertLock, hne] using hr
      | claim x t hmem =>
          intro sid r hr
          by_cases hne : sid = x.sandboxId
          · subst hne
            refine ⟨_, mem_set_self hk _, x, rfl, rfl, ?_⟩
            simpa [Registry.live, Registry.claimLiveRun] using hr
          · refine exists_set hk (h sid r ?_) (by rintro ⟨y, hy, -⟩; cases hy)
            simpa [Registry.live, Registry.claimLiveRun, hne] using hr
      | release x answer =>
          intro sid r hr
          by_cases hne : sid = x.sandboxId
          · subst hne
            simp only [Registry.live, Registry.releaseLiveRun, Function.update_self] at hr
            split at hr <;> simp at hr
          · refine exists_set hk (h sid r ?_) ?_
            · simpa [Registry.live, Registry.releaseLiveRun, hne] using hr
            · rintro ⟨y, hy, hsid, -⟩
              cases hy
              exact absurd hsid.symm hne
      | destroy | fell | take | detachVanished =>
          exact owned_frame h hk (fun _ _ hr => (live_detach hr).2) nofun
      | touch | relayTouch | touchTurn =>
          rw [Registry.touch_frame]
          exact owned_frame h hk (fun _ _ => id) nofun
      | retire =>
          rw [Registry.retire_frame]
          exact owned_frame h hk (fun _ _ => id) nofun
      | submit => exact owned_frame h hk (fun _ _ => id) (fun _ => id)
      | _ => exact owned_frame h hk (fun _ _ => id) nofun

theorem exclusive_of_claimed {s : State} (hgrip : Meets gripped s) (h : Meets claimed s)
    (hown : Owned s) : Exclusive s where
  single i j a b x y hij hi hj hx hy := h.two i j a b hij hi hj x y hx hy
  claim x t hth hmem := by
    -- the run in the slot would have an exec that holds the same lock
    cases hlive : s.shared.live x.sandboxId with
    | none => rfl
    | some r =>
        obtain ⟨b, hb, y, hy, hsid, -⟩ := hown _ r hlive
        obtain ⟨i, hi⟩ := List.getElem?_of_mem hth
        obtain ⟨j, hj⟩ := List.getElem?_of_mem hb
        obtain ⟨hturn, hgripb⟩ := turnOf_of_claims hy
        have hij : i ≠ j := by
          rintro rfl
          cases hi.symm.trans hj
          cases hy
        have hlx := h.each i _ hi x rfl hmem
        have hly := h.each j _ hj y hturn (hsid ▸ hmem)
        rw [hsid, hlx, Option.some.injEq] at hly
        exact absurd ⟨rfl, hly ▸ hgripb⟩ (hgrip.two i j _ b hij hi hj x.execLock)
  release x answer hth r hr := by
    obtain ⟨b, hb, y, hy, hsid, rfl⟩ := hown _ r hr
    obtain ⟨i, hi⟩ := List.getElem?_of_mem hth
    obtain ⟨j, hj⟩ := List.getElem?_of_mem hb
    by_cases hij : i = j
    · subst hij
      cases hi.symm.trans hj
      cases hy
      rfl
    · exact absurd hsid.symm (h.two i j _ b hij hi hj x y rfl hy)

/-- One exec at a time has the slot of a sandbox, in every run in which no
second exec lock is made for a sandbox in use. -/
theorem exclusive_of_alone {clock : Int} {named : List Nat} {acts : List Act}
    (h : EachStep step Alone (.initial clock named) acts) :
    Always step Exclusive (.initial clock named) acts := by
  refine always_of_eachStep
    (J := fun s => Meets reserved s ∧ Meets gripped s ∧ Meets claimed s ∧ Owned s)
    (fun s hs => exclusive_of_claimed hs.2.1 hs.2.2.1 hs.2.2.2) (fun s a s' hs hg hstep => ?_) ?_ h
  · obtain ⟨hres, hgrip, hclaimed, hown⟩ := hs
    exact ⟨step_reserved hres hstep, step_gripped hgrip hstep,
      step_claimed hres hgrip hclaimed hg hstep, step_owned hown hstep⟩
  · refine ⟨initial_reserved clock named, initial_gripped clock named, ⟨trivial, ?_, ?_⟩, nofun⟩
    · simp [State.initial]
    · simp [State.initial]

def spawnless : List Act :=
  [.call (.create 0), .advance 0 .ok, .advance 0 .fails, .call (.execRun 0 1), .advance 1 .ok,
    .call (.execRun 0 2)]

def harness : Handshake := ⟨1, []⟩

/-- The exec of thread `k` makes its lock, respawns and claims the slot. -/
def claimsSlot (k : Nat) : List Act :=
  [.advance k .ok, .advance k .ok, .advance k .ok, .advance k .ok, .advance k .ok,
    .advance k (.handshake harness), .advance k .ok, .advance k .ok, .advance k .ok,
    .advance k .ok]

theorem exclusive_of_alone_spawnless :
    EachStep step Alone (.initial 0 []) (spawnless ++ claimsSlot 1 ++ [Act.advance 2 .ok]) ∧
      Always step Exclusive (.initial 0 []) (spawnless ++ claimsSlot 1 ++ [Act.advance 2 .ok]) := by
  have h : EachStep step Alone (.initial 0 [])
      (spawnless ++ claimsSlot 1 ++ [Act.advance 2 .ok]) := by decide
  exact ⟨h, exclusive_of_alone h⟩

/-- Two execs that both find no exec lock each make one and run together. -/
theorem not_exclusive_spawnless :
    ¬ ∀ (clock : Int) (named : List Nat) (acts : List Act),
      Always step Exclusive (.initial clock named) acts := by
  intro h
  obtain ⟨s, hr, h1, h2⟩ : ∃ s, run step (.initial 0 [])
      (spawnless ++ [Act.advance 2 .ok] ++ (claimsSlot 2).take 4 ++ claimsSlot 1 ++
        (claimsSlot 2).drop 4) = some s ∧
      s.threads[1]? = some (.turn ⟨0, 1, 1⟩ (.tag 0)) ∧
      s.threads[2]? = some (.turn ⟨0, 2, 0⟩ (.tag 1)) := ⟨_, rfl, rfl, rfl⟩
  exact ((h 0 [] _).final hr).single 1 2 _ _ _ _ (by decide) h1 h2 rfl rfl rfl

end AgentWeb.OneExec
