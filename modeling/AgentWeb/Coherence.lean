import AgentWeb.Resident

namespace AgentWeb.Coherence

open Transitions Interleaving Resident

/-- No map has an entry for a sandbox the runner no longer holds. -/
def Coherent (g : Registry) : Prop :=
  ∀ sid, sid ∉ g.sandboxes → g.transports sid = none ∧ g.locks sid = false ∧
    g.liveRun sid = none ∧ g.execLocks sid = none

def Present (g : Registry) : Thread → Prop
  | .adopt sid _ | .insertLock sid _ => sid ∈ g.sandboxes
  | _ => True

def FindsSandbox (s : State) : Act → Prop
  | .advance k _ => ∀ th ∈ s.threads[k]?, Present s.shared th
  | _ => True

theorem Coherent.detach {g : Registry} (h : Coherent g) (sid : Nat) : Coherent (g.detach sid) := by
  intro other hother
  by_cases hne : other = sid
  · subst hne
    simp [Registry.detach]
  · have hold : other ∉ g.sandboxes := by simpa [Registry.detach, hne] using hother
    simpa [Registry.detach, hne] using h other hold

theorem move_coherent {g g' : Registry} {reply : Reply} {th th' : Thread} (h : Coherent g)
    (hp : Present g th) (hm : Move g reply th g' th') : Coherent g' := by
  cases hm with
  | read _ _ _ => exact h
  | enter sid =>
      intro other hother
      simp only [Registry.enter, List.mem_append, List.mem_singleton, not_or] at hother
      exact h other hother.1
  | adopt sid t =>
      intro other hother
      have hne : other ≠ sid := fun he => hother (he ▸ hp)
      simpa [Registry.register, Registry.insertLock, hne] using h other hother
  | insertLock sid runId =>
      intro other hother
      have hne : other ≠ sid := fun he => hother (he ▸ hp)
      simpa [Registry.insertLock, hne] using h other hother
  | destroy sid => exact h.detach sid
  | fell sid _ _ _ => exact h.detach sid
  | take _ _ sid _ _ _ _ _ => exact h.detach sid
  | detachVanished x => exact h.detach x.sandboxId
  | touch sid | relayTouch sid =>
      rw [Registry.touch_frame]
      exact h
  | touchTurn x =>
      rw [Registry.touch_frame]
      exact h
  | retire x t next =>
      intro other hother
      have hold : other ∉ g.sandboxes := by rwa [Registry.retire_frame] at hother
      obtain ⟨ht, hl, hr, he⟩ := h other hold
      rw [Registry.retire_transports, Registry.retire_locks, Registry.retire_frame]
      refine ⟨?_, ?_, hr, he⟩
      · split <;> simp [ht]
      · split <;> simp [hl]
  | register x t hmem =>
      intro other hother
      have hne : other ≠ x.sandboxId := fun he => hother (he ▸ hmem)
      simpa [Registry.register, Registry.setMeta, hne] using h other hother
  | claim x t hmem =>
      intro other hother
      have hne : other ≠ x.sandboxId := fun he => hother (he ▸ hmem)
      simpa [Registry.claimLiveRun, hne] using h other hother
  | release x a =>
      intro other hother
      by_cases hne : other = x.sandboxId
      · have hgone : x.sandboxId ∉ g.sandboxes := hne ▸ hother
        obtain ⟨ht, hl, -, he⟩ := h other (hne ▸ hgone)
        refine ⟨ht, hl, ?_, he⟩
        simp [Registry.releaseLiveRun, hne, hgone]
      · simpa [Registry.releaseLiveRun, hne] using h other hother
  | spawn | sweepClose | closing | relaySend | acquire | ready | unsupported | close | respawn
  | awaitReady | hello | helloLost | submit | leave => exact h

theorem present_of_coherent {g g' : Registry} {reply : Reply} {th th' : Thread}
    (hadv : advance g reply th = some (g', th')) (h : Coherent g') : Present g th := by
  cases th with
  | adopt sid t =>
      cases hadv
      by_contra hgone
      have ht := (h sid hgone).1
      simp [Registry.register, Registry.insertLock] at ht
  | insertLock sid runId =>
      cases hadv
      by_contra hgone
      have he := (h sid hgone).2.2.2
      simp [Registry.insertLock] at he
  | _ => trivial

/-- Starting from empty maps, they agree at every point of exactly the runs in
which `create` and `exec_run` insert for a sandbox that is still held. -/
theorem coherent_iff (clock : Int) (named : List Nat) (acts : List Act) :
    Always step (fun s : State => Coherent s.shared) (.initial clock named) acts ↔
      EachStep step FindsSandbox (.initial clock named) acts := by
  refine always_iff_eachStep (J := fun s : State => Coherent s.shared) (fun _ h => h) ?_ ?_ ?_ ?_
  · intro s a s' h hg hstep
    cases a with
    | call c =>
        obtain ⟨-, rfl⟩ := step_call hstep
        exact h
    | tick now =>
        cases hstep
        exact h
    | advance k reply =>
        obtain ⟨th, g, th', hk, hm, rfl⟩ := step_advance hstep
        exact move_coherent h (hg th hk) hm
  · intro s a s' _ hstep h'
    cases a with
    | advance k reply =>
        obtain ⟨th, g, th', hk, hadv, rfl⟩ := move_eq_some.mp hstep
        intro th₁ hk₁
        cases hk.symm.trans hk₁
        exact present_of_coherent hadv h'
    | _ => trivial
  · intro s a hstep
    cases a with
    | advance k reply =>
        intro th hk
        rw [Option.mem_def] at hk
        have hadv : advance s.shared reply th = none := by
          simpa [step, Pool.move, hk] using hstep
        cases th with
        | adopt | insertLock => simp [advance] at hadv
        | _ => trivial
    | _ => trivial
  · intro sid _
    exact ⟨rfl, rfl, rfl, rfl⟩

/-- The sweep may take a sandbox whose transport `create` is still spawning. -/
theorem not_coherent_swept :
    ¬ ∀ (clock : Int) (named : List Nat) (acts : List Act),
      Always step (fun s : State => Coherent s.shared) (.initial clock named) acts := by
  intro h
  obtain ⟨s, hr, hs, ht⟩ : ∃ s, run step (.initial 0 [])
      [.call (.create 0), .advance 0 .ok, .tick 10, .call (.reapIdle 5), .advance 1 .ok,
        .advance 1 .ok, .advance 1 .ok, .advance 0 .ok, .advance 0 .ok] = some s ∧
      s.shared.sandboxes = [] ∧ s.shared.transports 0 = some 0 := ⟨_, rfl, rfl, rfl⟩
  have hnone := ((h 0 [] _).final hr 0 (by simp [hs])).1
  simp [ht] at hnone

end AgentWeb.Coherence
