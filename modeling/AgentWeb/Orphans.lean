import AgentWeb.ExecLock

namespace AgentWeb.Orphans

open Transitions Interleaving Resident

def closed (g : Registry) (t : Nat) : Bool := (g.spawned[t]?).any (·.closed)

/-- Registered for a sandbox the runner holds. -/
def Kept (g : Registry) (t : Nat) : Prop := ∃ sid ∈ g.sandboxes, g.transports sid = some t

/-- The thread is not in `create`, `exec_run`, a `destroy` or a sweep. -/
def atRest : Thread → Bool
  | .touch _ | .exists _ | .relay _ _ | .relayAlive _ _ | .relayTouch _ _ | .relayTag _ _
  | .relaySend _ _ _ | .returned _ => true
  | _ => false

/-- Between operations every transport is registered or was closed. -/
def NoOrphan (s : State) : Prop :=
  (∀ th ∈ s.threads, atRest th = true) →
    ∀ t < s.shared.spawned.length, Kept s.shared t ∨ closed s.shared t = true

def carries : Thread → List Nat
  | .adopt _ t => [t]
  | .closing t _ | .sweepClose t _ _ _ _ => t.toList
  | .turn _ (.retire t _) | .turn _ (.awaitReady t) | .turn _ (.register t) => [t]
  | .turn _ (.closing t _) => t.toList
  | _ => []

/-- The sandbox for which `create` is about to register its transport. -/
def adopts : Thread → Option Nat
  | .adopt sid _ => some sid
  | _ => none

def registers : Thread → Option Nat
  | .adopt sid _ => some sid
  | .turn x (.register _) => some x.sandboxId
  | _ => none

def awaits : Thread → Bool
  | .turn _ (.awaitReady _) => true
  | _ => false

def isHandshake : Reply → Bool
  | .handshake _ => true
  | _ => false

/-- `create` finds its sandbox, a registration replaces no transport that was
not closed, and a respawned transport gives a handshake. -/
def Disposes (s : State) : Act → Prop
  | .advance k reply => ∀ th ∈ s.threads[k]?,
      (∀ sid ∈ adopts th, sid ∈ s.shared.sandboxes) ∧
        (∀ sid ∈ registers th, sid ∈ s.shared.sandboxes →
          ∀ t ∈ s.shared.transports sid, closed s.shared t = true) ∧
        (awaits th = true → isHandshake reply = true)
  | _ => True

instance (s : State) : (a : Act) → Decidable (Disposes s a)
  | .advance k reply => inferInstanceAs (Decidable (∀ th ∈ s.threads[k]?,
      (∀ sid ∈ adopts th, sid ∈ s.shared.sandboxes) ∧
        (∀ sid ∈ registers th, sid ∈ s.shared.sandboxes →
          ∀ t ∈ s.shared.transports sid, closed s.shared t = true) ∧
        (awaits th = true → isHandshake reply = true)))
  | .call _ | .tick _ => .isTrue trivial

def Accounted (s : State) : Prop :=
  ∀ t < s.shared.spawned.length, Kept s.shared t ∨ closed s.shared t = true ∨
    ∃ th ∈ s.threads, t ∈ carries th

@[simp] theorem closed_write (g : Registry) (u t : Nat) (e : Entry) :
    closed (g.write u e) t = closed g t := by
  simp only [closed, Registry.write, List.getElem?_modify]
  split
  · cases g.spawned[t]? <;> rfl
  · cases g.spawned[t]? <;> rfl

theorem closed_close {g : Registry} {u t : Nat} (ht : t < g.spawned.length)
    (h : closed g t = true ∨ t = u) : closed (g.close u) t = true := by
  simp only [closed, Registry.close, List.getElem?_modify]
  rw [List.getElem?_eq_getElem ht]
  by_cases hu : u = t
  · simp [hu]
  · rcases h with h | h
    · simpa [hu, closed, List.getElem?_eq_getElem ht] using h
    · exact absurd h.symm hu

theorem closed_spawn {g : Registry} {sid t : Nat} (ht : t < g.spawned.length) :
    closed (g.spawnTransport sid) t = closed g t := by
  simp [closed, Registry.spawnTransport, List.getElem?_append_left ht]

theorem kept_detach {g : Registry} {gone t : Nat} (h : Kept g t) :
    Kept (g.detach gone) t ∨ t ∈ (g.transports gone).toList := by
  obtain ⟨sid, hmem, ht⟩ := h
  by_cases hne : sid = gone
  · subst hne
    exact .inr (by simp [ht])
  · refine .inl ⟨sid, ExecLock.detach_sandboxes.mpr ⟨hmem, hne⟩, ?_⟩
    simpa [Registry.detach, hne] using ht

theorem register_sandboxes (g : Registry) (sid u : Nat) (fresh : Bool) :
    (g.register sid u fresh).sandboxes = g.sandboxes := by
  cases fresh <;> rfl

theorem register_transports (g : Registry) (sid u : Nat) (fresh : Bool) :
    (g.register sid u fresh).transports = Function.update g.transports sid (some u) := by
  cases fresh <;> rfl

theorem register_spawned (g : Registry) (sid u : Nat) (fresh : Bool) :
    (g.register sid u fresh).spawned = g.spawned := by
  cases fresh <;> rfl

theorem kept_register {g : Registry} {sid u t : Nat} (fresh : Bool) (hsid : sid ∈ g.sandboxes)
    (hold : ∀ t ∈ g.transports sid, closed g t = true) (h : Kept g t ∨ t = u) :
    Kept (g.register sid u fresh) t ∨ closed g t = true := by
  rcases h with ⟨other, hmem, ht⟩ | rfl
  · by_cases hne : other = sid
    · subst hne
      exact .inr (hold t ht)
    · refine .inl ⟨other, by rwa [register_sandboxes], ?_⟩
      rwa [register_transports, Function.update_of_ne hne]
  · refine .inl ⟨sid, by rwa [register_sandboxes], ?_⟩
    rw [register_transports, Function.update_self]

theorem kept_retire {g : Registry} {sid u t : Nat} (h : Kept g t) :
    Kept (g.retire sid u) t ∨ t = u := by
  obtain ⟨other, hmem, ht⟩ := h
  by_cases hu : other = sid ∧ g.transports sid = some u
  · obtain ⟨rfl, hu⟩ := hu
    exact .inr (Option.some.inj (ht.symm.trans hu))
  · refine .inl ⟨other, by rwa [Registry.retire_frame], ?_⟩
    rwa [Registry.retire_transports, if_neg hu]

theorem accounted_frame {s : State} {k : Nat} {th th' : Thread} {g : Registry} (h : Accounted s)
    (hk : s.threads[k]? = some th) (hlen : g.spawned.length = s.shared.spawned.length)
    (hclosed : ∀ t < s.shared.spawned.length, closed s.shared t = true → closed g t = true)
    (hkept : ∀ t < s.shared.spawned.length, Kept s.shared t →
      Kept g t ∨ closed g t = true ∨ t ∈ carries th')
    (hcarry : ∀ t ∈ carries th, t < s.shared.spawned.length →
      Kept g t ∨ closed g t = true ∨ t ∈ carries th') :
    Accounted ⟨g, s.threads.set k th'⟩ := by
  intro t ht
  have ht' : t < s.shared.spawned.length := hlen ▸ ht
  have hnew : ∀ h : Kept g t ∨ closed g t = true ∨ t ∈ carries th',
      Kept g t ∨ closed g t = true ∨ ∃ a ∈ s.threads.set k th', t ∈ carries a := by
    intro h
    exact h.imp id (Or.imp id fun hmem => ⟨th', mem_set_self hk th', hmem⟩)
  rcases h t ht' with hkeep | hcl | ⟨a, ha, hmem⟩
  · exact hnew (hkept t ht' hkeep)
  · exact .inr (.inl (hclosed t ht' hcl))
  · obtain ⟨i, hi⟩ := List.getElem?_of_mem ha
    by_cases hik : k = i
    · subst hik
      cases hk.symm.trans hi
      exact hnew (hcarry t hmem ht')
    · exact .inr (.inr ⟨a, List.mem_of_getElem? ((List.getElem?_set_ne hik).trans hi), hmem⟩)

theorem accounted_idle {s : State} {k : Nat} {th th' : Thread} {g : Registry} (h : Accounted s)
    (hk : s.threads[k]? = some th) (hs : g.spawned = s.shared.spawned)
    (hsand : g.sandboxes = s.shared.sandboxes) (ht : g.transports = s.shared.transports)
    (hnone : carries th = []) : Accounted ⟨g, s.threads.set k th'⟩ := by
  refine accounted_frame h hk (by rw [hs]) (fun t _ hc => ?_) (fun t _ hkeep => .inl ?_) ?_
  · rwa [closed, hs]
  · rwa [Kept, hsand, ht]
  · simp [hnone]

theorem accounted_detach {s : State} {k : Nat} {th th' : Thread} {gone : Nat} (h : Accounted s)
    (hk : s.threads[k]? = some th) (hnone : carries th = [])
    (htaken : carries th' = (s.shared.transports gone).toList) :
    Accounted ⟨s.shared.detach gone, s.threads.set k th'⟩ := by
  refine accounted_frame h hk rfl (fun _ _ => id) (fun t _ hkeep => ?_) ?_
  · rw [htaken]
    exact (kept_detach hkeep).imp id .inr
  · simp [hnone]

theorem accounted_spawn {s : State} {k : Nat} {th th' : Thread} {sid : Nat} (h : Accounted s)
    (hk : s.threads[k]? = some th) (hold : ∀ t ∈ carries th, False)
    (hnew : s.shared.spawned.length ∈ carries th') :
    Accounted ⟨s.shared.spawnTransport sid, s.threads.set k th'⟩ := by
  intro t ht
  by_cases hlast : t = s.shared.spawned.length
  · exact .inr (.inr ⟨th', mem_set_self hk th', hlast ▸ hnew⟩)
  · have hlt : t < s.shared.spawned.length := by
      simp only [Registry.spawnTransport, List.length_append, List.length_singleton] at ht
      omega
    rw [closed_spawn hlt]
    refine (h t hlt).imp id (Or.imp id fun hc => exists_set hk hc fun hmem => ?_)
    exact (hold t hmem).elim

theorem accounted_close {s : State} {k : Nat} {th th' : Thread} {u : Nat} (h : Accounted s)
    (hk : s.threads[k]? = some th) (hcarry : carries th = [u]) :
    Accounted ⟨s.shared.close u, s.threads.set k th'⟩ := by
  refine accounted_frame h hk (List.length_modify ..) (fun t ht hc => ?_) (fun _ _ => .inl)
    (fun t ht hlt => ?_)
  · exact closed_close ht (.inl hc)
  · rw [hcarry, List.mem_singleton] at ht
    exact .inr (.inl (closed_close hlt (.inr ht)))

theorem accounted_write {s : State} {k : Nat} {th th' : Thread} {g : Registry} {u : Nat}
    {e : Entry} (h : Accounted s) (hk : s.threads[k]? = some th)
    (hs : g.spawned = (s.shared.write u e).spawned) (hsand : g.sandboxes = s.shared.sandboxes)
    (ht : g.transports = s.shared.transports) (hcarry : ∀ t ∈ carries th, t ∈ carries th') :
    Accounted ⟨g, s.threads.set k th'⟩ := by
  have hclosed : ∀ t, closed g t = closed s.shared t := by
    intro t
    rw [← closed_write s.shared u t e, closed, closed, hs]
  refine accounted_frame h hk (by rw [hs]; exact List.length_modify ..) (fun t _ hc => ?_)
    (fun t _ hkeep => .inl ?_) (fun t hmem _ => .inr (.inr (hcarry t hmem)))
  · rwa [hclosed]
  · rwa [Kept, hsand, ht]

theorem goes_carries {g : Registry} {reply : Reply} {x : Turn} {p p' : Phase}
    (h : Goes g reply x p p')
    (hawait : awaits (.turn x p) = true → isHandshake reply = true) :
    ∀ t ∈ carries (.turn x p), t ∈ carries (.turn x p') := by
  cases h with
  | stillborn t a hno =>
      cases reply with
      | handshake hs => exact absurd rfl (hno hs)
      | _ => simp [isHandshake, awaits] at hawait
  | vanished t => simp [carries]
  | _ => simp [carries]

theorem step_accounted {s s' : State} {a : Act} (h : Accounted s) (hg : Disposes s a)
    (hstep : step s a = some s') : Accounted s' := by
  cases a with
  | tick now =>
      cases hstep
      exact h
  | call c =>
      obtain ⟨-, rfl⟩ := step_call hstep
      intro t ht
      exact (h t ht).imp id (Or.imp id (Exists.imp fun a => And.imp_left (List.mem_append_left _)))
  | advance k reply =>
      obtain ⟨th, g, th', hk, hm, rfl⟩ := step_advance hstep
      obtain ⟨hadopt, hregister, hawait⟩ := hg th hk
      cases hm with
      | read _ _ hr =>
          refine accounted_frame h hk rfl (fun _ _ => id) (fun _ _ => .inl) ?_
          cases hr with
          | turn x p p' hgo => exact fun t ht _ => .inr (.inr (goes_carries hgo hawait t ht))
          | _ => simp [carries]
      | enter new =>
          refine accounted_frame h hk rfl (fun _ _ => id) (fun t _ hkeep => .inl ?_) (List.forall_mem_nil _)
          obtain ⟨sid, hmem, ht⟩ := hkeep
          exact ⟨sid, List.mem_append_left _ hmem, ht⟩
      | spawn sid => exact accounted_spawn h hk (List.forall_mem_nil _) (.head _)
      | respawn x => exact accounted_spawn h hk (List.forall_mem_nil _) (.head _)
      | adopt sid t =>
          have hsid := hadopt sid rfl
          have hold := hregister sid rfl hsid
          refine accounted_frame h hk (by rw [register_spawned]) (fun u _ hu => ?_)
            (fun u _ hkeep => ?_) (fun u hu _ => ?_)
          · rwa [closed, register_spawned]
          · rw [closed, register_spawned]
            exact (kept_register true hsid hold (.inl hkeep)).imp id .inl
          · rw [closed, register_spawned]
            exact (kept_register true hsid hold (.inr (List.mem_singleton.mp hu))).imp id .inl
      | register x t hsid =>
          have hold := hregister x.sandboxId rfl hsid
          refine accounted_frame h hk (by simp [Registry.setMeta, register_spawned]) (fun u _ hu => ?_)
            (fun u _ hkeep => ?_) (fun u hu _ => ?_)
          · exact hu
          · exact (kept_register false hsid hold (.inl hkeep)).imp id .inl
          · exact (kept_register false hsid hold (.inr (List.mem_singleton.mp hu))).imp id .inl
      | destroy | fell | take | detachVanished => exact accounted_detach h hk rfl rfl
      | retire x t next =>
          refine accounted_frame h hk (by rw [Registry.retire_frame]) (fun u _ hu => ?_)
            (fun u _ hkeep => ?_) (fun u hu _ => .inr (.inr hu))
          · rwa [Registry.retire_frame]
          · exact (kept_retire hkeep).imp id fun he => .inr (by simp [carries, he])
      | sweepClose | closing | close => exact accounted_close h hk rfl
      | touch | relayTouch | touchTurn =>
          rw [Registry.touch_frame]
          exact accounted_idle h hk rfl rfl rfl rfl
      | insertLock | acquire | claim | release | leave => exact accounted_idle h hk rfl rfl rfl rfl
      | relaySend | submit | ready | unsupported | hello | helloLost =>
          exact accounted_write h hk rfl rfl rfl (List.forall_mem_nil _)
      | awaitReady x u hs hr p hp =>
          refine accounted_write h hk rfl rfl rfl (fun t ht => ?_)
          rcases hp with rfl | rfl <;> exact ht

theorem noOrphan_of_accounted {s : State} (h : Accounted s) : NoOrphan s := by
  intro hrest t ht
  rcases h t ht with hkeep | hcl | ⟨th, hth, hmem⟩
  · exact .inl hkeep
  · exact .inr hcl
  · have := hrest th hth
    cases th <;> simp_all [carries, atRest]

/-- No transport is left behind in the runs whose steps all dispose of theirs. -/
theorem noOrphan_of_disposes {clock : Int} {named : List Nat} {acts : List Act}
    (h : EachStep step Disposes (.initial clock named) acts) :
    Always step NoOrphan (.initial clock named) acts := by
  refine always_of_eachStep (J := Accounted) (fun s => noOrphan_of_accounted)
    (fun s a s' hs hg hstep => step_accounted hs hg hstep) ?_ h
  intro t ht
  simp [State.initial, Registry.initial] at ht

def harness : Handshake := ⟨1, []⟩

def firstTurn : List Act :=
  [Act.call (.create 0)] ++ List.replicate 4 (Act.advance 0 .ok) ++ [Act.call (.execRun 0 1)] ++
    List.replicate 5 (Act.advance 1 .ok) ++ [Act.advance 1 (.handshake harness)] ++
    List.replicate 8 (Act.advance 1 .ok)

def wedgedTurn : List Act :=
  [Act.call (.execRun 0 2)] ++ List.replicate 6 (Act.advance 2 .ok) ++ [Act.advance 2 .fails] ++
    List.replicate 3 (Act.advance 2 .ok) ++ [Act.advance 2 (.handshake harness)] ++
    List.replicate 9 (Act.advance 2 .ok)

theorem noOrphan_of_disposes_wedged :
    EachStep step Disposes (.initial 0 []) (firstTurn ++ wedgedTurn) ∧
      Always step NoOrphan (.initial 0 []) (firstTurn ++ wedgedTurn) := by
  have h : EachStep step Disposes (.initial 0 []) (firstTurn ++ wedgedTurn) := by decide
  exact ⟨h, noOrphan_of_disposes h⟩

/-- A respawned transport that dies before its ready line is dropped. -/
theorem not_noOrphan_stillborn :
    ¬ ∀ (clock : Int) (named : List Nat) (acts : List Act),
      Always step NoOrphan (.initial clock named) acts := by
  intro h
  obtain ⟨s, hr, hths, hsand, ht, hspawn⟩ : ∃ s, run step (.initial 0 [])
      ([Act.call (.create 0), .advance 0 .ok, .advance 0 .fails, .call (.execRun 0 1)] ++
        List.replicate 6 (Act.advance 1 .ok) ++ [Act.advance 1 .fails, .advance 1 .ok]) = some s ∧
      s.threads = [.returned .done, .returned .done] ∧ s.shared.sandboxes = [0] ∧
      s.shared.transports 0 = none ∧ s.shared.spawned = [⟨0, [], false⟩] :=
    ⟨_, rfl, rfl, rfl, rfl, rfl⟩
  rcases (h 0 [] _).final hr (by simp [hths, atRest]) 0 (by simp [hspawn]) with ⟨sid, hmem, hk⟩ | hc
  · rw [hsand, List.mem_singleton] at hmem
    subst hmem
    simp [ht] at hk
  · simp [closed, hspawn] at hc

end AgentWeb.Orphans
