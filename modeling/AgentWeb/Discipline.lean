import AgentWeb.OneExec

namespace AgentWeb.Discipline

open Transitions Interleaving Resident ExecLock OneExec

def readies (log : List Entry) : List Handshake :=
  log.filterMap fun | .ready h => some h | _ => none

def hellos (log : List Entry) : Nat :=
  log.countP fun | .hello => true | _ => false

def lost (log : List Entry) : Bool :=
  log.any fun | .helloLost => true | _ => false

def submitted (log : List Entry) : Bool :=
  log.any fun | .submit _ _ => true | _ => false

def advertised (log : List Entry) (capability : PyText.Str) : Bool :=
  (readies log).any (·.has capability)

def Proper (log : List Entry) : Entry → Prop
  | .submit _ opId => ∃ h, readies log = [h] ∧
      (submitted log = false → h.has capHello = true → hellos log = 1) ∧
      (opId = true → h.has capOpId = true)
  | .hello => advertised log capHello = true ∧ advertised log capOpId = true
  | .relay opId => opId = true → advertised log capOpId = true
  | .ready _ | .helloLost => True

def Orderly (log : List Entry) : Prop := ∀ before e, before ++ [e] <+: log → Proper before e

/-- On every transport the handshake comes before what relies on it. -/
def Disciplined (s : State) : Prop := ∀ t ∈ s.shared.spawned, Orderly t.log

theorem orderly_nil : Orderly [] := by
  intro before e h
  simp at h

theorem Orderly.concat {log : List Entry} {e : Entry} (h : Orderly log) (he : Proper log e) :
    Orderly (log ++ [e]) := by
  intro before e' hpre
  rcases List.prefix_concat_iff.mp hpre with heq | hpre
  · obtain ⟨rfl, hlast⟩ := List.append_inj' heq rfl
    rw [List.cons.injEq] at hlast
    rwa [hlast.1]
  · exact h before e' hpre

def isHandshake : Reply → Bool
  | .handshake _ => true
  | _ => false

def heldCapability (g : Registry) (sid : Nat) (capability : PyText.Str) : Bool :=
  (g.metas sid).handshake.any (·.has capability)

/-- A transport gives its ready line once and takes no op after a lost one, a
process that is replaced leaves no `greeted` behind for one that wants a hello,
a hello goes where correlation ids are known, a relayed op is tagged by the
handshake of its own transport, and no second exec lock is made. -/
def keeps (g : Registry) (threads : List Thread) (reply : Reply) : Thread → Bool
  | .turn _ (.readReady t) => !isHandshake reply || (readies (g.log t)).isEmpty
  | .turn x (.awaitReady _) => match reply with
    | .handshake h => !((g.metas x.sandboxId).greeted && h.has capHello)
    | _ => true
  | .turn x (.negotiate _) => match reply with
    | .ok => (g.metas x.sandboxId).greeted || !heldCapability g x.sandboxId capHello ||
        heldCapability g x.sandboxId capOpId
    | _ => true
  | .turn _ (.submit t _) => match reply with
    | .ok => !lost (g.log t)
    | _ => true
  | .relayTag sid t => !g.tag sid || advertised (g.log t) capOpId
  | .insertLock sid _ => threads.all fun a => (turnOf a).all fun x => x.sandboxId != sid
  | _ => true

def Keeps (s : State) : Act → Prop
  | .advance k reply => ∀ th ∈ s.threads[k]?, keeps s.shared s.threads reply th = true
  | _ => True

instance (s : State) : (a : Act) → Decidable (Keeps s a)
  | .advance k reply => inferInstanceAs
      (Decidable (∀ th ∈ s.threads[k]?, keeps s.shared s.threads reply th = true))
  | .call _ | .tick _ => .isTrue trivial

def Sole (s : State) : Prop :=
  ∀ a ∈ s.threads, ∀ b ∈ s.threads, ∀ x y, turnOf a = some x → turnOf b = some y →
    x.sandboxId = y.sandboxId → x.execLock = y.execLock

def Of (g : Registry) (sid t : Nat) : Prop := ∃ x, g.spawned[t]? = some x ∧ x.sandboxId = sid

def digest (log : List Entry) : List Handshake × Nat × Bool := (readies log, hellos log, lost log)

/-- The handshake on record is the transport's own, and `greeted` tells whether
it got its hello. -/
def Synced (m : Meta) (log : List Entry) : Prop :=
  ∃ h, m.handshake = some h ∧ readies log = [h] ∧
    (m.greeted = false → hellos log = 0 ∧ lost log = false) ∧
    (m.greeted = true → h.has capHello = true → hellos log = 1 ∨ lost log = true)

def Welcome (log : List Entry) : Prop :=
  ∃ h, readies log = [h] ∧ (h.has capHello = true → hellos log = 1 ∨ lost log = true)

def Holds (g : Registry) (sid t : Nat) : Prop := ∀ t' ∈ g.transports sid, t' = t

def Settled (g : Registry) (sid : Nat) : Prop :=
  ∀ t ∈ g.transports sid, (g.metas sid).readyOk = true → Synced (g.metas sid) (g.log t)

def Knows (g : Registry) (sid : Nat) : Phase → Prop
  | .aliveCheck t => Of g sid t ∧ Holds g sid t ∧
      ((g.metas sid).readyOk = true → Synced (g.metas sid) (g.log t))
  | .readReady t => Of g sid t ∧ Holds g sid t ∧ (g.metas sid).readyOk = false
  | .ping t | .probe t _ | .touch t | .negotiate t => Of g sid t ∧ Holds g sid t ∧
      (g.metas sid).readyOk = true ∧ Synced (g.metas sid) (g.log t)
  | .awaitReady t => Of g sid t ∧ digest (g.log t) = ([], 0, false)
  | .register t => Of g sid t ∧ Synced (g.metas sid) (g.log t)
  | .awaitHello t | .claim t | .tag t => Of g sid t ∧ Synced (g.metas sid) (g.log t) ∧
      Welcome (g.log t)
  | .submit t opId => Of g sid t ∧ Welcome (g.log t) ∧
      (opId = true → advertised (g.log t) capOpId = true)
  | _ => True

def worksOn : Thread → Option Nat
  | .turn _ .acquire => none
  | .turn x _ => some x.sandboxId
  | th => th.creates

def Fact (g : Registry) : Thread → Prop
  | .spawn sid => (g.metas sid).readyOk = false
  | .adopt sid t => (g.metas sid).readyOk = false ∧ Of g sid t
  | .relaySend _ t opId => opId = true → advertised (g.log t) capOpId = true
  | .turn x p => Knows g x.sandboxId p
  | _ => True

def enters : Thread → Option (Nat × Nat)
  | .adopt sid t => some (sid, t)
  | .turn x (.register t) => some (x.sandboxId, t)
  | _ => none

def unsettles : Thread → Option Nat
  | .turn x (.retire _ _) | .turn x (.register _) => some x.sandboxId
  | _ => none

def found : Thread → Option Nat
  | .insertLock sid _ => some sid
  | .turn x _ => some x.sandboxId
  | _ => none

def Placed (g : Registry) (sid : Nat) : Prop := sid ∈ g.sandboxes ∨ g.transports sid = none

structure Tidy (s : State) : Prop where
  orderly : ∀ t, Orderly (s.shared.log t)
  unread : ∀ t, readies (s.shared.log t) = [] →
    hellos (s.shared.log t) = 0 ∧ lost (s.shared.log t) = false
  owned : ∀ sid, ∀ t ∈ s.shared.transports sid, Of s.shared sid t
  greeted : ∀ sid, (s.shared.metas sid).greeted = true → (s.shared.metas sid).readyOk = true
  fact : ∀ th ∈ s.threads, Fact s.shared th
  settled : ∀ sid, Settled s.shared sid ∨ ∃ th ∈ s.threads, unsettles th = some sid

/-- What a step leaves to the exec of another sandbox. -/
structure Quiet (g g' : Registry) (sid : Nat) : Prop where
  readyOk : (g'.metas sid).readyOk = (g.metas sid).readyOk
  greeted : (g'.metas sid).greeted = (g.metas sid).greeted
  handshake : (g'.metas sid).handshake = (g.metas sid).handshake
  transports : ∀ t ∈ g'.transports sid, t ∈ g.transports sid
  log : ∀ t, Of g sid t → Of g' sid t ∧ digest (g'.log t) = digest (g.log t)

theorem digest_eq {log log' : List Entry} (h : digest log' = digest log) :
    readies log' = readies log ∧ hellos log' = hellos log ∧ lost log' = lost log := by
  simpa [digest] using h

theorem digest_relay (log : List Entry) (opId : Bool) :
    digest (log ++ [.relay opId]) = digest log := by
  simp [digest, readies, hellos, lost]

theorem digest_submit (log : List Entry) (runId : Nat) (opId : Bool) :
    digest (log ++ [.submit runId opId]) = digest log := by
  simp [digest, readies, hellos, lost]

theorem log_write (g : Registry) (u t : Nat) (e : Entry) :
    (g.write u e).log t = if t = u ∧ t < g.spawned.length then g.log t ++ [e] else g.log t := by
  simp only [Registry.log, Registry.write, List.getElem?_modify]
  by_cases hlt : t < g.spawned.length
  · rw [List.getElem?_eq_getElem hlt]
    by_cases hu : u = t <;> simp [hu, hlt, eq_comm]
  · simp [hlt]

theorem log_write_self {g : Registry} {sid t : Nat} (h : Of g sid t) (e : Entry) :
    (g.write t e).log t = g.log t ++ [e] := by
  obtain ⟨x, hx, -⟩ := h
  rw [log_write, if_pos ⟨rfl, (List.getElem?_eq_some_iff.mp hx).choose⟩]

theorem log_write_ne {g : Registry} {u t : Nat} (h : t ≠ u) (e : Entry) :
    (g.write u e).log t = g.log t := by
  rw [log_write, if_neg fun hu => h hu.1]

theorem log_close (g : Registry) (u t : Nat) : (g.close u).log t = g.log t := by
  simp only [Registry.log, Registry.close, List.getElem?_modify]
  cases g.spawned[t]? with
  | none => rfl
  | some x => by_cases hu : u = t <;> simp [hu]

theorem log_spawnTransport (g : Registry) (sid t : Nat) :
    (g.spawnTransport sid).log t = g.log t := by
  simp only [Registry.log, Registry.spawnTransport, List.getElem?_append]
  split
  next => rfl
  next hge =>
    rw [List.getElem?_eq_none (Nat.le_of_not_lt hge), List.getElem?_singleton]
    split <;> rfl

theorem Of.write {g : Registry} {sid t : Nat} (h : Of g sid t) (u : Nat) (e : Entry) :
    Of (g.write u e) sid t := by
  obtain ⟨x, hx, hsid⟩ := h
  by_cases hu : u = t <;> simp [Of, Registry.write, hx, hu, hsid]

theorem Of.close {g : Registry} {sid t : Nat} (h : Of g sid t) (u : Nat) : Of (g.close u) sid t := by
  obtain ⟨x, hx, hsid⟩ := h
  by_cases hu : u = t <;> simp [Of, Registry.close, hx, hu, hsid]

theorem Of.spawn {g : Registry} {sid t : Nat} (h : Of g sid t) (other : Nat) :
    Of (g.spawnTransport other) sid t := by
  obtain ⟨x, hx, hsid⟩ := h
  refine ⟨x, ?_, hsid⟩
  simp [Registry.spawnTransport, List.getElem?_append_left (List.getElem?_eq_some_iff.mp hx).choose, hx]

theorem Of.ne {g : Registry} {sid other t u : Nat} (h : Of g sid t) (hu : Of g other u)
    (hne : sid ≠ other) : t ≠ u := by
  rintro rfl
  obtain ⟨x, hx, rfl⟩ := h
  obtain ⟨y, hy, rfl⟩ := hu
  cases hx.symm.trans hy
  exact hne rfl

theorem Synced.congr {m m' : Meta} {log log' : List Entry} (h : Synced m log)
    (hh : m'.handshake = m.handshake) (hg : m'.greeted = m.greeted)
    (hd : digest log' = digest log) : Synced m' log' := by
  obtain ⟨hr, hn, hl⟩ := digest_eq hd
  rwa [Synced, hh, hg, hr, hn, hl]

theorem Welcome.congr {log log' : List Entry} (h : Welcome log) (hd : digest log' = digest log) :
    Welcome log' := by
  obtain ⟨hr, hn, hl⟩ := digest_eq hd
  rwa [Welcome, hr, hn, hl]

theorem detach_transports {g : Registry} {gone sid t : Nat} (h : t ∈ (g.detach gone).transports sid) :
    t ∈ g.transports sid := by
  by_cases hne : sid = gone
  · subst hne
    simp [Registry.detach] at h
  · simpa [Registry.detach, hne] using h

namespace Quiet

variable {g g' g'' : Registry} {sid other u : Nat}

theorem trans (h : Quiet g g' sid) (h' : Quiet g' g'' sid) : Quiet g g'' sid where
  readyOk := h'.readyOk.trans h.readyOk
  greeted := h'.greeted.trans h.greeted
  handshake := h'.handshake.trans h.handshake
  transports t ht := h.transports t (h'.transports t ht)
  log t ht := by
    obtain ⟨hof, hd⟩ := h.log t ht
    obtain ⟨hof', hd'⟩ := h'.log t hof
    exact ⟨hof', hd'.trans hd⟩

theorem of_maps (hm : g'.metas sid = g.metas sid)
    (ht : ∀ t ∈ g'.transports sid, t ∈ g.transports sid) (hs : g'.spawned = g.spawned) :
    Quiet g g' sid where
  readyOk := by rw [hm]
  greeted := by rw [hm]
  handshake := by rw [hm]
  transports := ht
  log t h := by
    rw [Of, Registry.log, Registry.log, hs]
    exact ⟨h, rfl⟩

theorem setMeta (hne : sid ≠ other) (f : Meta → Meta) : Quiet g (g.setMeta other f) sid :=
  of_maps (Function.update_of_ne hne ..) (fun _ => id) rfl

theorem touch : Quiet g (g.touch other) sid := by
  rw [Registry.touch]
  split
  · by_cases hne : sid = other
    · subst hne
      refine ⟨?_, ?_, ?_, fun _ => id, fun _ h => ⟨h, rfl⟩⟩ <;> simp [Registry.setMeta]
    · exact setMeta hne _
  · exact of_maps rfl (fun _ => id) rfl

theorem detach : Quiet g (g.detach other) sid := of_maps rfl (fun _ => detach_transports) rfl

theorem retire (hne : sid ≠ other) : Quiet g (g.retire other u) sid := by
  refine of_maps ?_ (fun t ht => ?_) (by rw [Registry.retire_frame])
  · rw [Registry.retire]
    split <;> exact Function.update_of_ne hne ..
  · rwa [Registry.retire_transports, if_neg fun h => hne h.1] at ht

theorem register (hne : sid ≠ other) (fresh : Bool) : Quiet g (g.register other u fresh) sid := by
  cases fresh <;>
    exact of_maps rfl (fun t ht => by simpa [Registry.register, Registry.insertLock, hne] using ht) rfl

theorem spawn : Quiet g (g.spawnTransport other) sid where
  readyOk := rfl
  greeted := rfl
  handshake := rfl
  transports _ := id
  log t h := ⟨h.spawn other, by rw [log_spawnTransport]⟩

theorem close : Quiet g (g.close u) sid where
  readyOk := rfl
  greeted := rfl
  handshake := rfl
  transports _ := id
  log t h := ⟨h.close u, by rw [log_close]⟩

theorem write (hu : Of g other u) (hne : sid ≠ other) (e : Entry) : Quiet g (g.write u e) sid where
  readyOk := rfl
  greeted := rfl
  handshake := rfl
  transports _ := id
  log t h := ⟨h.write u e, by rw [log_write_ne (h.ne hu hne)]⟩

theorem neutral {e : Entry} (he : ∀ log, digest (log ++ [e]) = digest log) :
    Quiet g (g.write u e) sid where
  readyOk := rfl
  greeted := rfl
  handshake := rfl
  transports _ := id
  log t h := by
    refine ⟨h.write u _, ?_⟩
    rw [log_write]
    split
    · exact he _
    · rfl

theorem acceptHandshake (hu : Of g other u) (hne : sid ≠ other) (h : Handshake) :
    Quiet g (g.acceptHandshake other u h) sid :=
  (write hu hne _).trans (setMeta hne _)

theorem greet (hu : Of g other u) (hne : sid ≠ other) (f : Meta → Meta) (e : Entry) :
    Quiet g ((g.setMeta other f).write u e) sid :=
  (setMeta hne f).trans (write (g := g.setMeta other f) hu hne e)

theorem knows {p : Phase} (h : Quiet g g' sid) (hk : Knows g sid p) : Knows g' sid p := by
  have hholds : ∀ t, Holds g sid t → Holds g' sid t := fun t ht t' ht' =>
    ht t' (h.transports t' ht')
  have hsynced : ∀ t, Of g sid t → Synced (g.metas sid) (g.log t) →
      Synced (g'.metas sid) (g'.log t) := fun t hof hs =>
    hs.congr h.handshake h.greeted (h.log t hof).2
  cases p with
  | aliveCheck t =>
      obtain ⟨hof, ht, hs⟩ := hk
      exact ⟨(h.log t hof).1, hholds t ht, fun hr => hsynced t hof (hs (h.readyOk ▸ hr))⟩
  | readReady t =>
      obtain ⟨hof, ht, hr⟩ := hk
      exact ⟨(h.log t hof).1, hholds t ht, h.readyOk.trans hr⟩
  | ping t | probe t _ | touch t | negotiate t =>
      obtain ⟨hof, ht, hr, hs⟩ := hk
      exact ⟨(h.log t hof).1, hholds t ht, h.readyOk.trans hr, hsynced t hof hs⟩
  | awaitReady t =>
      obtain ⟨hof, hd⟩ := hk
      exact ⟨(h.log t hof).1, (h.log t hof).2.trans hd⟩
  | register t =>
      obtain ⟨hof, hs⟩ := hk
      exact ⟨(h.log t hof).1, hsynced t hof hs⟩
  | awaitHello t | claim t | tag t =>
      obtain ⟨hof, hs, hw⟩ := hk
      exact ⟨(h.log t hof).1, hsynced t hof hs, hw.congr (h.log t hof).2⟩
  | submit t opId =>
      obtain ⟨hof, hw, hid⟩ := hk
      refine ⟨(h.log t hof).1, hw.congr (h.log t hof).2, ?_⟩
      rwa [advertised, (digest_eq (h.log t hof).2).1]
  | _ => trivial

theorem settled (h : Quiet g g' sid) (hown : ∀ t ∈ g.transports sid, Of g sid t)
    (hs : Settled g sid) : Settled g' sid := by
  intro t ht hr
  have ht' := h.transports t ht
  exact (hs t ht' (h.readyOk ▸ hr)).congr h.handshake h.greeted (h.log t (hown t ht')).2

end Quiet

theorem move_quiet {g g' : Registry} {reply : Reply} {th th' : Thread} {sid : Nat}
    (hm : Move g reply th g' th') (hf : Fact g th) (hsid : worksOn th ≠ some sid) :
    Quiet g g' sid := by
  have hne : ∀ other, worksOn th = some other → sid ≠ other := by
    rintro other hw rfl
    exact hsid hw
  cases hm with
  | read | insertLock | acquire | claim | release | leave =>
      exact .of_maps rfl (fun _ => id) rfl
  | enter new => exact .of_maps (Function.update_of_ne (hne new rfl) ..) (fun _ => id) rfl
  | spawn | respawn => exact .spawn
  | adopt other t => exact .register (hne other rfl) true
  | destroy | fell | take | detachVanished => exact .detach
  | sweepClose | closing | close => exact .close
  | touch | relayTouch | touchTurn => exact .touch
  | relaySend sid t opId => exact .neutral fun _ => digest_relay ..
  | ready x t h => exact (Quiet.acceptHandshake hf.1 (hne _ rfl) h).trans (.setMeta (hne _ rfl) _)
  | unsupported x t h => exact .acceptHandshake hf.1 (hne _ rfl) h
  | awaitReady x t h => exact .acceptHandshake hf.1 (hne _ rfl) h
  | retire x t next => exact .retire (hne _ rfl)
  | register x t => exact (Quiet.register (hne _ rfl) false).trans (.setMeta (hne _ rfl) _)
  | hello x t => exact .greet hf.1 (hne _ rfl) _ _
  | helloLost x t => exact .greet hf.1 (hne _ rfl) _ _
  | submit x t opId => exact .neutral fun _ => digest_submit ..

theorem move_placed {g g' : Registry} {reply : Reply} {th th' : Thread} {sid : Nat}
    (hm : Move g reply th g' th') (hne : th.creates ≠ some sid) (h : Placed g sid) :
    Placed g' sid := by
  have hdetach : ∀ gone, Placed (g.detach gone) sid := by
    intro gone
    by_cases he : sid = gone
    · subst he
      exact .inr (by simp [Registry.detach])
    · refine h.imp (fun hmem => detach_sandboxes.mpr ⟨hmem, he⟩) fun ht => ?_
      simpa [Registry.detach, he] using ht
  cases hm with
  | enter new => exact h.imp (List.mem_append_left _) id
  | adopt other t =>
      have he : sid ≠ other := fun he => hne (by rw [he]; rfl)
      exact h.imp id fun ht => by simpa [Registry.register, Registry.insertLock, he] using ht
  | register x t hmem =>
      by_cases he : sid = x.sandboxId
      · exact .inl (he ▸ hmem)
      · exact h.imp id fun ht => by simpa [Registry.register, Registry.setMeta, he] using ht
  | destroy gone | fell gone => exact hdetach gone
  | take _ _ gone => exact hdetach gone
  | detachVanished x => exact hdetach x.sandboxId
  | touch | relayTouch | touchTurn =>
      rw [Registry.touch_frame]
      exact h
  | retire x t next =>
      refine h.imp (fun hmem => by rwa [Registry.retire_frame]) fun ht => ?_
      rw [Registry.retire_transports, ht, ite_self]
  | _ => exact h

theorem move_found {g g' : Registry} {reply : Reply} {th th' : Thread} {sid : Nat}
    (hm : Move g reply th g' th') (h : found th' = some sid) :
    found th = some sid ∨ th.creates = none ∧ sid ∈ g.sandboxes := by
  cases hm with
  | read _ _ hr =>
      cases hr with
      | lookUp _ _ _ hmem | lockless _ _ hmem =>
          cases h
          exact .inr ⟨rfl, hmem⟩
      | turn => exact .inl h
      | _ => simp [found] at h
  | sweepClose _ _ _ _ _ _ hth => rcases hth with rfl | rfl <;> simp [found] at h
  | insertLock | acquire | ready | unsupported | retire | close | respawn | awaitReady | register
  | detachVanished | touchTurn | hello | helloLost | claim | submit | release => exact .inl h
  | _ => simp [found] at h

theorem names_of_found {th : Thread} {sid : Nat} (h : found th = some sid) :
    names th = some sid := by
  cases th with
  | insertLock | turn => exact h
  | _ => cases h

theorem creates_of_found {th : Thread} {sid : Nat} (h : found th = some sid) :
    th.creates = none := by
  cases th with
  | insertLock | turn => rfl
  | _ => cases h

theorem step_placed {s s' : State} {a : Act} (hres : Meets reserved s)
    (h : ∀ th ∈ s.threads, ∀ sid, found th = some sid → Placed s.shared sid)
    (hstep : step s a = some s') :
    ∀ th ∈ s'.threads, ∀ sid, found th = some sid → Placed s'.shared sid := by
  cases a with
  | tick now =>
      cases hstep
      exact h
  | call c =>
      obtain ⟨-, rfl⟩ := step_call hstep
      intro th hth sid hsid
      rcases mem_append_singleton.mp hth with hold | rfl
      · exact h th hold sid hsid
      · cases c <;> simp [Call.thread, found] at hsid
  | advance k reply =>
      obtain ⟨th, g, th', hk, hm, rfl⟩ := step_advance hstep
      have hne : ∀ a ∈ s.threads, ∀ sid, found a = some sid → th.creates ≠ some sid := by
        intro a ha sid hsid hc
        obtain ⟨j, hj⟩ := List.getElem?_of_mem ha
        by_cases hjk : k = j
        · subst hjk
          cases hk.symm.trans hj
          rw [creates_of_found hsid] at hc
          cases hc
        · exact ((hres.two k j th a hjk hk hj sid).1 hc).1 (names_of_found hsid)
      intro a ha sid hsid
      rcases List.mem_or_eq_of_mem_set ha with hold | rfl
      · exact move_placed hm (hne a hold sid hsid) (h a hold sid hsid)
      · have hmem := List.mem_of_getElem? hk
        rcases move_found hm hsid with hf | ⟨hc, hin⟩
        · exact move_placed hm (hne th hmem sid hf) (h th hmem sid hf)
        · exact move_placed hm (by simp [hc]) (.inl hin)

theorem move_turnOf {g g' : Registry} {reply : Reply} {th th' : Thread} {x : Turn}
    (hm : Move g reply th g' th') (h : turnOf th' = some x) :
    turnOf th = some x ∨ inserts th = some x.sandboxId ∨
      x.sandboxId ∈ g.sandboxes ∧ g.execLocks x.sandboxId = some x.execLock := by
  cases hm with
  | read _ _ hr =>
      cases hr with
      | lookUp sid runId l hmem hl =>
          cases h
          exact .inr (.inr ⟨hmem, hl⟩)
      | turn => exact .inl h
      | _ => simp [turnOf] at h
  | insertLock sid runId =>
      cases h
      exact .inr (.inl rfl)
  | sweepClose _ _ _ _ _ _ hth => rcases hth with rfl | rfl <;> simp [turnOf] at h
  | acquire | ready | unsupported | retire | close | respawn | awaitReady | register
  | detachVanished | touchTurn | hello | helloLost | claim | submit | release => exact .inl h
  | _ => simp [turnOf] at h

theorem alone_of_keeps {s : State} {a : Act} (h : Keeps s a) : Alone s a := by
  cases a with
  | advance k reply =>
      intro th hk sid hsid _ a ha x hx
      have hkeeps := h th hk
      cases th with
      | insertLock other runId =>
          cases hsid
          rw [Option.mem_def] at hx
          simpa [hx] using List.all_eq_true.mp hkeeps a ha
      | _ => simp [inserts] at hsid
  | _ => trivial

theorem step_sole {s s' : State} {a : Act} (hclaimed : Meets claimed s) (h : Sole s)
    (hg : Keeps s a) (hstep : step s a = some s') : Sole s' := by
  cases a with
  | tick now =>
      cases hstep
      exact h
  | call c =>
      obtain ⟨-, rfl⟩ := step_call hstep
      have hold : ∀ a ∈ s.threads ++ [c.thread], ∀ x, turnOf a = some x → a ∈ s.threads := by
        intro a ha x hx
        rcases mem_append_singleton.mp ha with ha | rfl
        · exact ha
        · cases c <;> simp [Call.thread, turnOf] at hx
      exact fun a ha b hb x y hx hy => h a (hold a ha x hx) b (hold b hb y hy) x y hx hy
  | advance k reply =>
      obtain ⟨th, g, th', hk, hm, rfl⟩ := step_advance hstep
      have hmem := List.mem_of_getElem? hk
      -- the lock of the thread that moved is that of the execs it may meet
      have hmeet : ∀ a ∈ s.threads, ∀ x y, turnOf th' = some x → turnOf a = some y →
          x.sandboxId = y.sandboxId → x.execLock = y.execLock := by
        intro a ha x y hx hy he
        rcases move_turnOf hm hx with hx | hins | ⟨hin, hl⟩
        · exact h th hmem a ha x y hx hy he
        · have hkeeps := hg th hk
          cases th with
          | insertLock sid runId =>
              cases hins
              have := List.all_eq_true.mp hkeeps a ha
              simp [hy, he] at this
          | _ => simp [inserts] at hins
        · obtain ⟨j, hj⟩ := List.getElem?_of_mem ha
          have hly := hclaimed.each j a hj y hy (he ▸ hin)
          rw [← he, hl] at hly
          exact Option.some.inj hly
      intro a ha b hb x y hx hy he
      rcases List.mem_or_eq_of_mem_set ha with ha' | rfl
      · rcases List.mem_or_eq_of_mem_set hb with hb' | rfl
        · exact h a ha' b hb' x y hx hy he
        · exact (hmeet a ha' y x hy hx he.symm).symm
      · rcases List.mem_or_eq_of_mem_set hb with hb' | rfl
        · exact hmeet b hb' x y hx hy he
        · rw [Option.some.inj (hx.symm.trans hy)]

theorem worksOn_turn {x : Turn} {p : Phase} (h : p ≠ .acquire) :
    worksOn (.turn x p) = some x.sandboxId := by
  cases p with
  | acquire => exact absurd rfl h
  | _ => rfl

theorem worksOn_eq {th : Thread} {sid : Nat} (h : worksOn th = some sid) :
    th.creates = some sid ∨ ∃ x, turnOf th = some x ∧ x.sandboxId = sid ∧
      names th = some sid ∧ grip th = some (x.execLock, true) := by
  cases th with
  | turn x p =>
      cases p with
      | acquire => simp [worksOn] at h
      | _ =>
          cases h
          exact .inr ⟨x, rfl, rfl, rfl, rfl⟩
  | _ => exact .inl h

theorem worksOn_ne {s : State} (hres : Meets reserved s) (hgrip : Meets gripped s) (hsole : Sole s)
    {i j : Nat} {a b : Thread} {sid : Nat} (hij : i ≠ j) (hi : s.threads[i]? = some a)
    (hj : s.threads[j]? = some b) (ha : worksOn a = some sid) : worksOn b ≠ some sid := by
  intro hb
  obtain ⟨hab, hba⟩ := hres.two i j a b hij hi hj sid
  rcases worksOn_eq ha with hca | ⟨x, hx, hxs, hna, hga⟩
  · rcases worksOn_eq hb with hcb | ⟨y, -, -, hnb, -⟩
    · exact (hab hca).2 hcb
    · exact (hab hca).1 hnb
  · rcases worksOn_eq hb with hcb | ⟨y, hy, hys, -, hgb⟩
    · exact (hba hcb).1 hna
    · have hlock := hsole a (List.mem_of_getElem? hi) b (List.mem_of_getElem? hj) x y hx hy
        (hxs.trans hys.symm)
      exact hgrip.two i j a b hij hi hj x.execLock ⟨hga, hlock ▸ hgb⟩

theorem of_push (g : Registry) (sid : Nat) : Of (g.spawnTransport sid) sid g.spawned.length := by
  simp [Of, Registry.spawnTransport]

theorem log_push (g : Registry) (sid : Nat) : (g.spawnTransport sid).log g.spawned.length = [] := by
  simp [Registry.log, Registry.spawnTransport]

theorem Synced.welcome {m : Meta} {log : List Entry} (h : Synced m log)
    (hm : m.greeted = true ∨ m.handshake.any (·.has capHello) = false) : Welcome log := by
  obtain ⟨hs, hh, hr, -, hg⟩ := h
  refine ⟨hs, hr, fun hhello => ?_⟩
  rcases hm with hm | hm
  · exact hg hm hhello
  · simp [hh, hhello] at hm

theorem advertised_of_readies {log : List Entry} {h : Handshake} {capability : PyText.Str}
    (hr : readies log = [h]) (hc : h.has capability = true) : advertised log capability = true := by
  simp [advertised, hr, hc]

theorem Synced.advertised_tag {g : Registry} {sid : Nat} {log : List Entry}
    (h : Synced (g.metas sid) log) (ht : g.tag sid = true) : advertised log capOpId = true := by
  obtain ⟨hs, hh, hr, -⟩ := h
  refine advertised_of_readies hr ?_
  rw [Registry.tag, Registry.capabilities] at ht
  split at ht
  · simpa [hh, Handshake.has] using ht
  · simp at ht

theorem synced_ready {m : Meta} {log : List Entry} {h : Handshake}
    (hd : digest log = ([], 0, false)) (hh : m.handshake = some h)
    (hg : m.greeted = true → h.has capHello = false) : Synced m (log ++ [.ready h]) := by
  obtain ⟨hr, hn, hl⟩ : readies log = [] ∧ hellos log = 0 ∧ lost log = false := by
    simpa [digest] using hd
  refine ⟨h, hh, by simpa [readies] using hr, fun _ => ⟨by simpa [hellos] using hn, ?_⟩, ?_⟩
  · simpa [lost] using hl
  · intro hgreeted hhello
    simp [hg hgreeted] at hhello

theorem Synced.greet {m : Meta} {log : List Entry} {e : Entry} (h : Synced m log)
    (hg : m.greeted = false) (he : e = .hello ∨ e = .helloLost) :
    Synced { m with greeted := true } (log ++ [e]) := by
  obtain ⟨hs, hh, hr, hn, -⟩ := h
  obtain ⟨hn, -⟩ := hn hg
  refine ⟨hs, hh, ?_, nofun, fun _ _ => ?_⟩
  · rcases he with rfl | rfl <;> simpa [readies] using hr
  · rcases he with rfl | rfl
    · exact .inl (by simpa [hellos] using hn)
    · exact .inr (by simp [lost])

theorem acceptHandshake_synced {g : Registry} {sid t : Nat} {hs : Handshake} (hof : Of g sid t)
    (hd : digest (g.log t) = ([], 0, false))
    (hg : (g.metas sid).greeted = true → hs.has capHello = false) :
    Synced ((g.acceptHandshake sid t hs).metas sid) ((g.acceptHandshake sid t hs).log t) := by
  have hlog : (g.acceptHandshake sid t hs).log t = g.log t ++ [.ready hs] := log_write_self hof _
  rw [hlog]
  refine synced_ready hd (by simp [Registry.acceptHandshake, Registry.setMeta]) fun hgreeted => hg ?_
  simpa [Registry.acceptHandshake, Registry.setMeta, Registry.write] using hgreeted

theorem acceptHandshake_greeted {g : Registry} {sid t : Nat} {hs : Handshake}
    (h : (g.metas sid).greeted = true → (g.metas sid).readyOk = true) :
    ((g.acceptHandshake sid t hs).metas sid).greeted = true →
      ((g.acceptHandshake sid t hs).metas sid).readyOk = true := by
  simpa [Registry.acceptHandshake, Registry.setMeta, Registry.write] using h

theorem knows_greet {g : Registry} {sid t : Nat} {e : Entry} (he : e = .hello ∨ e = .helloLost)
    (hk : Knows g sid (.negotiate t)) (hg : (g.metas sid).greeted = false) :
    Knows ((g.setMeta sid fun m => { m with greeted := true }).write t e) sid (.awaitHello t) := by
  obtain ⟨hof, -, -, hsync⟩ := hk
  have hlog : ((g.setMeta sid fun m => { m with greeted := true }).write t e).log t =
      g.log t ++ [e] := log_write_self (g := g.setMeta _ _) hof e
  have hnew : Synced { g.metas sid with greeted := true } (g.log t ++ [e]) := hsync.greet hg he
  refine ⟨hof.write (g := g.setMeta _ _) t e, ?_, ?_⟩
  · rw [hlog]
    simpa [Registry.write, Registry.setMeta] using hnew
  · rw [hlog]
    exact hnew.welcome (.inl rfl)

section mover

variable {s : State} {reply : Reply} {g : Registry} {th th' : Thread}

theorem goes_knows {x : Turn} {p p' : Phase} (h : Tidy s) (hf : Knows s.shared x.sandboxId p)
    (hset : unsettles (.turn x p) = none → Settled s.shared x.sandboxId)
    (hgo : Goes s.shared reply x p p') : Knows s.shared x.sandboxId p' := by
  cases hgo with
  | found t ht =>
      refine ⟨h.owned _ t ht, fun t' ht' => ?_, hset rfl t ht⟩
      rw [Option.mem_def, ht] at ht'
      exact (Option.some.inj ht').symm
  | warm t hr => exact ⟨hf.1, hf.2.1, hr, hf.2.2 hr⟩
  | cold t hr => exact ⟨hf.1, hf.2.1, hr⟩
  | unprobed t | ping t | pong t => exact hf
  | greeted t hg =>
      obtain ⟨hof, -, -, hs⟩ := hf
      exact ⟨hof, hs, hs.welcome hg⟩
  | welcome t => exact hf
  | tag t => exact ⟨hf.1, hf.2.2, hf.2.1.advertised_tag⟩
  | closed next => cases next <;> trivial
  | _ => trivial

theorem move_fact (h : Tidy s) (hth : th ∈ s.threads)
    (hkeeps : keeps s.shared s.threads reply th = true)
    (hset : ∀ sid, worksOn th = some sid → unsettles th = none → Settled s.shared sid)
    (hm : Move s.shared reply th g th') : Fact g th' := by
  have hf := h.fact th hth
  cases hm with
  | read _ _ hr =>
      cases hr with
      | turn x p p' hgo =>
          have hp : p ≠ .acquire := by cases hgo <;> nofun
          exact goes_knows (p := p) h hf (hset _ (worksOn_turn hp)) hgo
      | relayTag sid t =>
          intro htag
          simpa [keeps, htag] using hkeeps
      | _ => trivial
  | enter sid => simp [Fact, Registry.enter]
  | spawn sid => exact ⟨hf, of_push s.shared sid⟩
  | respawn x => exact ⟨of_push s.shared x.sandboxId, by rw [log_push]; rfl⟩
  | sweepClose _ _ _ _ _ _ hth => rcases hth with rfl | rfl <;> trivial
  | close x t next p hp =>
      rcases hp with rfl | rfl
      · cases next <;> trivial
      · trivial
  | ready x t hs hr hsup =>
      subst hr
      obtain ⟨hof, hholds, hcold⟩ := hf
      have hnone : readies (s.shared.log t) = [] := by simpa [keeps, isHandshake] using hkeeps
      obtain ⟨hn, hl⟩ := h.unread t hnone
      have hfresh : digest (s.shared.log t) = ([], 0, false) := by simp [digest, hnone, hn, hl]
      have hungreeted : (s.shared.metas x.sandboxId).greeted = true → hs.has capHello = false := by
        intro hg
        simp [h.greeted _ hg] at hcold
      have hsync := acceptHandshake_synced hof hfresh hungreeted
      refine ⟨hof.write t _, hholds, by simp [Registry.setMeta], hsync.congr ?_ ?_ rfl⟩
      · simp [Registry.setMeta]
      · simp [Registry.setMeta]
  | awaitReady x t hs hr p hp =>
      subst hr
      rcases hp with rfl | rfl
      · obtain ⟨hof, hd⟩ := hf
        refine ⟨hof.write t _, acceptHandshake_synced hof hd fun hg => ?_⟩
        simpa [keeps, hg] using hkeeps
      · trivial
  | register x t hmem =>
      obtain ⟨hof, hs⟩ := hf
      refine ⟨hof, fun t' ht' => ?_, by simp [Registry.setMeta], hs.congr ?_ ?_ rfl⟩
      · simpa [Registry.register, Registry.setMeta, eq_comm] using ht'
      · simp [Registry.register, Registry.setMeta]
      · simp [Registry.register, Registry.setMeta]
  | touchTurn x t => exact Quiet.touch.knows (p := .negotiate t) hf
  | hello x t hs hr hmem hhello hg => exact knows_greet (.inl rfl) hf hg
  | helloLost x t hs hmem hhello hg => exact knows_greet (.inr rfl) hf hg
  | claim x t hmem =>
      have hq : Quiet s.shared (s.shared.claimLiveRun x.sandboxId x.runId) x.sandboxId :=
        .of_maps rfl (fun _ => id) rfl
      exact hq.knows (p := .tag t) hf
  | _ => trivial

theorem move_own {sid : Nat} (h : Tidy s) (hplaced : found th = some sid → Placed s.shared sid)
    (hf : Fact s.shared th) (hf' : Fact g th') (hworks : worksOn th = some sid)
    (hset : unsettles th = none → Settled s.shared sid) (hm : Move s.shared reply th g th') :
    ((g.metas sid).greeted = true → (g.metas sid).readyOk = true) ∧
      (Settled g sid ∨ unsettles th' = some sid) := by
  have hquiet : unsettles th = none → Quiet s.shared g sid →
      ((g.metas sid).greeted = true → (g.metas sid).readyOk = true) ∧
        (Settled g sid ∨ unsettles th' = some sid) := by
    intro hun hq
    refine ⟨?_, .inl (hq.settled (h.owned sid) (hset hun))⟩
    rw [hq.greeted, hq.readyOk]
    exact h.greeted sid
  have hcold : (g.metas sid).greeted = false → (g.metas sid).readyOk = false →
      ((g.metas sid).greeted = true → (g.metas sid).readyOk = true) ∧
        (Settled g sid ∨ unsettles th' = some sid) := by
    intro hg hr
    refine ⟨by simp [hg], .inl fun t _ hready => ?_⟩
    simp [hr] at hready
  have hwarm : ∀ t, Holds g sid t → (g.metas sid).readyOk = true →
      Synced (g.metas sid) (g.log t) →
      ((g.metas sid).greeted = true → (g.metas sid).readyOk = true) ∧
        (Settled g sid ∨ unsettles th' = some sid) := by
    intro t hholds hready hsync
    refine ⟨fun _ => hready, .inl fun t' ht' _ => ?_⟩
    rw [hholds t' ht']
    exact hsync
  cases hm with
  | read _ _ hr =>
      refine ⟨h.greeted sid, ?_⟩
      cases hr with
      | turn x p p' hgo =>
          cases hgo with
          | vanished t hgone =>
              have hsid : x.sandboxId = sid := by simpa [worksOn] using hworks
              subst hsid
              have hnone := (hplaced rfl).resolve_left hgone
              exact .inl fun t' ht' => by simp [hnone] at ht'
          | refused t => exact .inr hworks
          | wedged t p => exact .inr hworks
          | _ => exact .inl (hset rfl)
      | _ => exact .inl (hset rfl)
  | enter new =>
      cases hworks
      exact hcold (by simp [Registry.enter]) (by simp [Registry.enter])
  | adopt new t =>
      cases hworks
      refine hcold ?_ hf.1
      by_contra hg
      have hready := h.greeted sid (by simpa [Registry.register, Registry.insertLock] using hg)
      simp [hf.1] at hready
  | ready x t hs | register x t =>
      cases hworks
      obtain ⟨-, hholds, hready, hsync⟩ := hf'
      exact hwarm t hholds hready hsync
  | unsupported x t hs =>
      cases hworks
      exact ⟨acceptHandshake_greeted (h.greeted _), .inr rfl⟩
  | awaitReady x t hs hr p hp =>
      cases hworks
      refine ⟨acceptHandshake_greeted (h.greeted _), .inr ?_⟩
      rcases hp with rfl | rfl <;> rfl
  | retire x t next =>
      cases hworks
      exact hcold (by simp [Registry.retire, Registry.setMeta])
        (by simp [Registry.retire, Registry.setMeta])
  | hello x t hs | helloLost x t hs =>
      cases hworks
      obtain ⟨-, hholds, hready, -⟩ := hf
      obtain ⟨-, hsync, -⟩ := hf'
      exact hwarm t hholds (by simpa [Registry.setMeta, Registry.write] using hready) hsync
  | spawn | respawn => exact hquiet rfl .spawn
  | close => exact hquiet rfl .close
  | touchTurn => exact hquiet rfl .touch
  | detachVanished => exact hquiet rfl .detach
  | submit => exact hquiet rfl (.neutral fun _ => digest_submit ..)
  | claim | release | leave => exact hquiet rfl (.of_maps rfl (fun _ => id) rfl)
  | _ => simp [worksOn, Thread.creates] at hworks

theorem move_of {sid t : Nat} (hm : Move s.shared reply th g th') (h : Of s.shared sid t) :
    Of g sid t := by
  cases hm with
  | touch | relayTouch | touchTurn =>
      rw [Registry.touch_frame]
      exact h
  | retire =>
      rw [Registry.retire_frame]
      exact h
  | adopt | register => exact h
  | spawn | respawn => exact h.spawn _
  | sweepClose | closing | close => exact h.close _
  | relaySend | submit | ready | unsupported | awaitReady => exact h.write _ _
  | hello x u | helloLost x u => exact h.write (g := s.shared.setMeta _ _) _ _
  | _ => exact h

theorem register_transports {g : Registry} {sid other t u : Nat} (fresh : Bool)
    (h : t ∈ (g.register other u fresh).transports sid) :
    t ∈ g.transports sid ∨ some (other, u) = some (sid, t) := by
  have hmap : (g.register other u fresh).transports = Function.update g.transports other (some u) := by
    cases fresh <;> rfl
  rw [hmap] at h
  by_cases he : sid = other
  · subst he
    rw [Function.update_self, Option.mem_some_iff] at h
    exact .inr (h ▸ rfl)
  · rw [Function.update_of_ne he] at h
    exact .inl h

theorem move_transports {sid t : Nat} (hm : Move s.shared reply th g th')
    (ht : t ∈ g.transports sid) : t ∈ s.shared.transports sid ∨ enters th = some (sid, t) := by
  cases hm with
  | adopt => exact register_transports true ht
  | register => exact register_transports false ht
  | touch | relayTouch | touchTurn =>
      rw [Registry.touch_frame] at ht
      exact .inl ht
  | retire x u next =>
      rw [Registry.retire_transports] at ht
      split at ht
      · simp at ht
      · exact .inl ht
  | destroy gone | fell gone => exact .inl (detach_transports ht)
  | take _ _ gone => exact .inl (detach_transports ht)
  | detachVanished x => exact .inl (detach_transports ht)
  | _ => exact .inl ht

theorem move_log (hf : Fact s.shared th)
    (hkeeps : keeps s.shared s.threads reply th = true) (hm : Move s.shared reply th g th')
    (t : Nat) : g.log t = s.shared.log t ∨ ∃ e, g.log t = s.shared.log t ++ [e] ∧
      Proper (s.shared.log t) e ∧ (e = .hello ∨ e = .helloLost → readies (s.shared.log t) ≠ []) := by
  have hwrite : ∀ (u : Nat) (e : Entry), Proper (s.shared.log u) e →
      (e = .hello ∨ e = .helloLost → readies (s.shared.log u) ≠ []) →
      (s.shared.write u e).log t = s.shared.log t ∨
        ∃ e', (s.shared.write u e).log t = s.shared.log t ++ [e'] ∧ Proper (s.shared.log t) e' ∧
          (e' = .hello ∨ e' = .helloLost → readies (s.shared.log t) ≠ []) := by
    intro u e he hnew
    rw [log_write]
    split
    next hu =>
      obtain ⟨rfl, -⟩ := hu
      exact .inr ⟨e, rfl, he, hnew⟩
    next => exact .inl rfl
  cases hm with
  | touch | relayTouch | touchTurn =>
      rw [Registry.touch_frame]
      exact .inl rfl
  | retire =>
      rw [Registry.retire_frame]
      exact .inl rfl
  | spawn | respawn => exact .inl (log_spawnTransport ..)
  | sweepClose | closing | close => exact .inl (log_close ..)
  | relaySend sid u opId => exact hwrite u (.relay opId) hf (by simp)
  | ready x u hs => exact hwrite u (.ready hs) trivial (by simp)
  | unsupported x u hs => exact hwrite u (.ready hs) trivial (by simp)
  | awaitReady x u hs => exact hwrite u (.ready hs) trivial (by simp)
  | hello x u hs hr hmem hhello hg =>
      subst hr
      obtain ⟨-, -, -, h', hh, hready, -⟩ := hf
      cases hmem.symm.trans hh
      have hid : hs.has capOpId = true := by
        simpa [keeps, heldCapability, hmem, hhello, hg] using hkeeps
      exact hwrite u .hello ⟨advertised_of_readies hready hhello, advertised_of_readies hready hid⟩
        (by simp [hready])
  | helloLost x u hs hmem hhello hg =>
      obtain ⟨-, -, -, h', -, hready, -⟩ := hf
      exact hwrite u .helloLost trivial (by simp [hready])
  | submit x u opId hr =>
      subst hr
      obtain ⟨-, ⟨hs, hready, hhello⟩, hid⟩ := hf
      have hlost : lost (s.shared.log u) = false := by simpa [keeps] using hkeeps
      refine hwrite u (.submit x.runId opId) ⟨hs, hready, fun _ hcap => ?_, fun ho => ?_⟩ (by simp)
      · exact (hhello hcap).resolve_right (by simp [hlost])
      · simpa [advertised, hready] using hid ho
  | _ => exact .inl rfl

end mover

theorem of_enters {g : Registry} {th : Thread} {sid t : Nat} (hf : Fact g th)
    (h : enters th = some (sid, t)) : Of g sid t := by
  cases th with
  | adopt other u =>
      cases h
      exact hf.2
  | turn x p =>
      cases p with
      | register u =>
          cases h
          exact hf.1
      | _ => simp [enters] at h
  | _ => simp [enters] at h

theorem advertised_of_prefix {log log' : List Entry} {capability : PyText.Str}
    (hlog : log' = log ∨ ∃ e, log' = log ++ [e]) (h : advertised log capability = true) :
    advertised log' capability = true := by
  rcases hlog with rfl | ⟨e, rfl⟩
  · exact h
  · rw [advertised, readies, List.filterMap_append, List.any_append, Bool.or_eq_true]
    exact .inl h

theorem other_fact {s : State} {reply : Reply} {g : Registry} {th th' a : Thread}
    (hf : Fact s.shared th) (hkeeps : keeps s.shared s.threads reply th = true)
    (hm : Move s.shared reply th g th') (hne : ∀ sid, worksOn a = some sid → worksOn th ≠ some sid)
    (ha : Fact s.shared a) : Fact g a := by
  cases a with
  | spawn sid => exact (move_quiet hm hf (hne sid rfl)).readyOk.trans ha
  | adopt sid t =>
      exact ⟨(move_quiet hm hf (hne sid rfl)).readyOk.trans ha.1, move_of hm ha.2⟩
  | relaySend sid t opId =>
      intro ho
      refine advertised_of_prefix ?_ (ha ho)
      exact (move_log hf hkeeps hm t).imp id fun ⟨e, he, _⟩ => ⟨e, he⟩
  | turn x p =>
      by_cases hp : p = .acquire
      · subst hp
        trivial
      · exact (move_quiet hm hf (hne _ (worksOn_turn hp))).knows (p := p) ha
  | _ => trivial

theorem step_tidy {s s' : State} {a : Act} (hres : Meets reserved s) (hgrip : Meets gripped s)
    (hsole : Sole s) (hplaced : ∀ th ∈ s.threads, ∀ sid, found th = some sid → Placed s.shared sid)
    (h : Tidy s) (hg : Keeps s a) (hstep : step s a = some s') : Tidy s' := by
  cases a with
  | tick now =>
      cases hstep
      exact ⟨h.orderly, h.unread, h.owned, h.greeted, h.fact, h.settled⟩
  | call c =>
      obtain ⟨-, rfl⟩ := step_call hstep
      refine ⟨h.orderly, h.unread, h.owned, h.greeted, fun th hth => ?_, fun sid => ?_⟩
      · rcases mem_append_singleton.mp hth with hold | rfl
        · exact h.fact th hold
        · cases c <;> trivial
      · exact (h.settled sid).imp id fun ⟨th, hth, hun⟩ => ⟨th, List.mem_append_left _ hth, hun⟩
  | advance k reply =>
      obtain ⟨th, g, th', hk, hm, rfl⟩ := step_advance hstep
      have hkeeps := hg th hk
      have hmem := List.mem_of_getElem? hk
      have hf := h.fact th hmem
      have hunsettles : ∀ a sid, unsettles a = some sid → worksOn a = some sid := by
        intro a sid hun
        cases a with
        | turn x p => cases p <;> first | exact hun | simp [unsettles] at hun
        | _ => simp [unsettles] at hun
      have hset : ∀ sid, worksOn th = some sid → unsettles th = none → Settled s.shared sid := by
        intro sid hworks hnone
        refine (h.settled sid).resolve_right ?_
        rintro ⟨a, ha, hun⟩
        obtain ⟨j, hj⟩ := List.getElem?_of_mem ha
        by_cases hjk : k = j
        · subst hjk
          cases hk.symm.trans hj
          simp [hnone] at hun
        · exact worksOn_ne hres hgrip hsole hjk hk hj hworks (hunsettles a sid hun)
      have hf' := move_fact h hmem hkeeps hset hm
      have hlog := move_log hf hkeeps hm
      refine ⟨fun t => ?_, fun t => ?_, fun sid t ht => ?_, fun sid => ?_, fun a ha => ?_,
        fun sid => ?_⟩
      · rcases hlog t with he | ⟨e, he, hproper, -⟩
        · rw [he]
          exact h.orderly t
        · rw [he]
          exact (h.orderly t).concat hproper
      · rcases hlog t with he | ⟨e, he, -, hnew⟩
        · rw [he]
          exact h.unread t
        · rw [he]
          intro hnone
          rw [readies, List.filterMap_append, List.append_eq_nil_iff] at hnone
          obtain ⟨hn, hl⟩ := h.unread t hnone.1
          cases e with
          | hello => exact absurd hnone.1 (hnew (.inl rfl))
          | helloLost => exact absurd hnone.1 (hnew (.inr rfl))
          | _ => exact ⟨by simpa [hellos] using hn, by simpa [lost] using hl⟩
      · rcases move_transports hm ht with hold | hnew
        · exact move_of hm (h.owned sid t hold)
        · exact move_of hm (of_enters hf hnew)
      · by_cases hworks : worksOn th = some sid
        · exact (move_own h (hplaced th hmem sid) hf hf' hworks (hset sid hworks) hm).1
        · have hq := move_quiet hm hf hworks
          rw [hq.greeted, hq.readyOk]
          exact h.greeted sid
      · obtain ⟨j, hj⟩ := List.getElem?_of_mem ha
        rcases getElem?_set_cases hj with ⟨-, rfl⟩ | ⟨hjk, hj⟩
        · exact hf'
        · refine other_fact hf hkeeps hm (fun sid hworks => ?_) (h.fact a (List.mem_of_getElem? hj))
          exact worksOn_ne hres hgrip hsole hjk hj hk hworks
      · by_cases hworks : worksOn th = some sid
        · refine (move_own h (hplaced th hmem sid) hf hf' hworks (hset sid hworks) hm).2.imp id ?_
          exact fun hun => ⟨th', mem_set_self hk th', hun⟩
        · refine (h.settled sid).imp ((move_quiet hm hf hworks).settled (h.owned sid)) fun he => ?_
          exact exists_set hk he fun hun => absurd (hunsettles th sid hun) hworks

/-- The handshake comes first on every transport, in the runs whose steps all
keep the conditions above. -/
theorem disciplined_of_keeps {clock : Int} {named : List Nat} {acts : List Act}
    (h : EachStep step Keeps (.initial clock named) acts) :
    Always step Disciplined (.initial clock named) acts := by
  refine always_of_eachStep (J := fun s => (Meets reserved s ∧ Meets gripped s ∧ Meets claimed s) ∧
    Sole s ∧ (∀ th ∈ s.threads, ∀ sid, found th = some sid → Placed s.shared sid) ∧ Tidy s)
    (fun s hs t ht => ?_) (fun s a s' hs hg hstep => ?_) ?_ h
  · obtain ⟨k, hk⟩ := List.getElem?_of_mem ht
    simpa [Registry.log, hk] using hs.2.2.2.orderly k
  · obtain ⟨⟨hres, hgrip, hclaimed⟩, hsole, hplaced, htidy⟩ := hs
    exact ⟨⟨step_reserved hres hstep, step_gripped hgrip hstep,
      step_claimed hres hgrip hclaimed (alone_of_keeps hg) hstep⟩, step_sole hclaimed hsole hg hstep,
      step_placed hres hplaced hstep, step_tidy hres hgrip hsole hplaced htidy hg hstep⟩
  · have hgreeted : ∀ sid, ((Registry.initial clock named).metas sid).greeted = true →
        ((Registry.initial clock named).metas sid).readyOk = true := by
      intro sid he
      cases he
    refine ⟨⟨initial_reserved clock named, initial_gripped clock named, ⟨trivial, ?_, ?_⟩⟩, ?_, ?_,
      ⟨fun t => orderly_nil, fun t _ => ⟨rfl, rfl⟩, fun sid => of_none rfl, hgreeted, ?_,
        fun sid => .inl (of_none rfl)⟩⟩ <;> simp [State.initial, Sole]

def harness : Handshake := ⟨1, [capHello, capOpId]⟩

def firstTurn : List Act :=
  [Act.call (.create 0)] ++ List.replicate 4 (Act.advance 0 .ok) ++ [Act.call (.execRun 0 1)] ++
    List.replicate 5 (Act.advance 1 .ok) ++ [Act.advance 1 (.handshake harness)] ++
    List.replicate 9 (Act.advance 1 .ok)

def wedgedTurn : List Act :=
  [Act.call (.execRun 0 2)] ++ List.replicate 6 (Act.advance 2 .ok) ++ [Act.advance 2 .fails] ++
    List.replicate 3 (Act.advance 2 .ok) ++ [Act.advance 2 (.handshake harness)] ++
    List.replicate 7 (Act.advance 2 .ok)

theorem disciplined_of_keeps_wedged :
    EachStep step Keeps (.initial 0 []) (firstTurn ++ wedgedTurn) ∧
      Always step Disciplined (.initial 0 []) (firstTurn ++ wedgedTurn) := by
  have h : EachStep step Keeps (.initial 0 []) (firstTurn ++ wedgedTurn) := by decide
  exact ⟨h, disciplined_of_keeps h⟩

/-- A process that died is replaced by one that gets no hello. -/
theorem not_disciplined_died :
    ¬ ∀ (clock : Int) (named : List Nat) (acts : List Act),
      Always step Disciplined (.initial clock named) acts := by
  intro h
  obtain ⟨s, hr, hlast⟩ : ∃ s, run step (.initial 0 [])
      (firstTurn ++ [Act.call (.execRun 0 2)] ++ List.replicate 4 (Act.advance 2 .ok) ++
        [Act.advance 2 .fails, .advance 2 .ok, .advance 2 (.handshake harness)] ++
        List.replicate 6 (Act.advance 2 .ok)) = some s ∧
      s.shared.spawned[1]? = some ⟨0, [.ready harness, .submit 2 true], false⟩ := ⟨_, rfl, rfl⟩
  obtain ⟨hs, hready, hhello, -⟩ := (h 0 [] _).final hr _ (List.mem_of_getElem? hlast)
    [.ready harness] (.submit 2 true) List.prefix_rfl
  cases hready
  exact absurd (hhello rfl (by decide)) (by decide)

end AgentWeb.Discipline
