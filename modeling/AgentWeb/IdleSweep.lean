import AgentWeb.Bookings

namespace AgentWeb.IdleSweep

open Transitions Interleaving Resident ExecLock OneExec Controller Bookings

/-- The sandbox a started run is assigned: the one that `exists` has reported
to `start_run`, or the one `create` makes for it. -/
def picks (g : Backend) : Job → Option (Nat × Nat)
  | .probing c sid k => match g.answer k with
    | some .done => some (c.runId, sid)
    | _ => none
  | .touching c sid _ | .creating c _ sid _ | .flushing c _ sid | .committing c _ sid
  | .registering c sid | .enrolling c sid | .launching c sid | .ready c sid | .executing c sid _
  | .gone c sid | .finishing c sid | .closing c sid | .leaving c sid | .ended c sid =>
      some (c.runId, sid)
  | _ => none

def Assigned (s : System) (sid : Nat) : Prop :=
  ∃ job ∈ s.threads, ∃ r, picks s.shared job = some (r, sid) ∧
    (s.shared.runs[r]?).any (·.status = .running) = true

def sweeps : Thread → Option (Int × Int × Nat)
  | .sweep ttl now (sid :: _) _ => some (ttl, now, sid)
  | _ => none

def Spares (s : System) : Controller.Act → Prop
  | .runner k _ => ∀ th ∈ s.shared.runner.threads[k]?, ∀ ttl now sid,
      sweeps th = some (ttl, now, sid) →
        s.shared.runner.shared.detaches sid (Registry.idle ttl now) = true → ¬ Assigned s sid
  | _ => True

def Unclaimed (r : Resident.State) (sid : Nat) : Prop :=
  ∀ th ∈ r.threads, ∀ x, claims th = some x → x.sandboxId ≠ sid

/-- A sweep that finds the sandbox of an unfinished run before the claim or
after the release finds it touched within the time to live. -/
def Touched (s : System) : Controller.Act → Prop
  | .runner k _ => ∀ th ∈ s.shared.runner.threads[k]?, ∀ ttl now sid,
      sweeps th = some (ttl, now, sid) → sid ∈ s.shared.runner.shared.sandboxes →
        Assigned s sid → Unclaimed s.shared.runner sid →
          now - (s.shared.runner.shared.metas sid).lastUsed ≤ ttl
  | _ => True

theorem live_eq_none_of_unclaimed {r : Resident.State} (h : Owned r) {sid : Nat}
    (hsid : Unclaimed r sid) : r.shared.live sid = none := by
  by_contra hlive
  obtain ⟨run, hrun⟩ := Option.ne_none_iff_exists'.mp hlive
  obtain ⟨th, hth, x, hx, he, -⟩ := h sid run hrun
  exact hsid th hth x hx he

theorem unclaimed_of_live_eq_none {r : Resident.State} (h : Slotted r) {sid : Nat}
    (hmem : sid ∈ r.shared.sandboxes) (hlive : r.shared.live sid = none) : Unclaimed r sid := by
  rintro th hth x hx rfl
  have hslot := h th hth x hx hmem
  simp [hlive] at hslot

theorem detaches_idle {g : Registry} {sid : Nat} {ttl now : Int} :
    g.detaches sid (Registry.idle ttl now) = true ↔
      sid ∈ g.sandboxes ∧ g.live sid = none ∧ ttl < now - (g.metas sid).lastUsed := by
  rw [detaches_eq_true, Registry.idle, Bool.and_eq_true, Option.isNone_iff_eq_none,
    decide_eq_true_eq]

/-- The slot protects a run from its claim to its release, and nothing but a
recent touch does before and after. -/
theorem spares_iff_touched {s : System} (h : Sound s) (a : Controller.Act) :
    Spares s a ↔ Touched s a := by
  cases a with
  | runner k reply =>
      constructor
      · intro hspares th hk ttl now sid hsweep hmem hassigned hunclaimed
        by_contra hstale
        have hlive := live_eq_none_of_unclaimed h.owned hunclaimed
        exact hspares th hk ttl now sid hsweep
          (detaches_idle.mpr ⟨hmem, hlive, Int.not_le.mp hstale⟩) hassigned
      · intro htouched th hk ttl now sid hsweep hdetach hassigned
        obtain ⟨hmem, hlive, hstale⟩ := detaches_idle.mp hdetach
        have hunclaimed := unclaimed_of_live_eq_none h.slotted hmem hlive
        exact Int.not_lt.mpr (htouched th hk ttl now sid hsweep hmem hassigned hunclaimed) hstale
  | _ => rfl

/-- The sweep takes no sandbox from an unfinished run in exactly the runs in
which it finds them touched. -/
theorem spares_iff (st : Settings) (clock : Int) (acts : List Controller.Act) :
    EachStep (Controller.step st) Spares (.initial clock) acts ↔
      EachStep (Controller.step st) Touched (.initial clock) acts :=
  eachStep_congr (J := Sound) (fun _ _ _ => step_sound) (fun _ a hs => spares_iff_touched hs a)
    (initial_sound clock)

/-- A sweep may come between `exists` and `touch` of the next turn. -/
theorem not_spares_returning :
    ¬ ∀ (st : Settings) (clock : Int) (acts : List Controller.Act), 0 < st.sandboxTtl →
      EachStep (Controller.step st) Spares (.initial clock) acts := by
  intro h
  obtain ⟨s, hr, hsweep, hdetach, hjob, hpick, hrow⟩ : ∃ s, run (Controller.step ⟨5, 10⟩)
      (.initial 0) ([Act.request (.start 0 0)] ++ builds 0 0 0 ++ pumps 1 ++ finishes 0 1 ++
        [Controller.Act.tick 10, .request (.start 0 0)] ++ List.replicate 4 (Act.job 1 .ok) ++
        [Act.runner 2 .ok, .request .reapIdleSandboxes, .job 2 .ok, .runner 3 .ok, .runner 3 .ok]) =
          some s ∧
      s.shared.runner.threads[3]? = some (.sweep 5 10 [0] []) ∧
      s.shared.runner.shared.detaches 0 (Registry.idle 5 10) = true ∧
      s.threads[1]? = some (.probing ⟨1, 0, 0, none⟩ 0 2) ∧
      picks s.shared (.probing ⟨1, 0, 0, none⟩ 0 2) = some (1, 0) ∧
      (s.shared.runs[1]?).any (·.status = .running) = true :=
    ⟨_, rfl, rfl, rfl, rfl, rfl, rfl⟩
  exact (h ⟨5, 10⟩ 0 _ (by decide)).last hr (l := .runner 3 .ok) _ hsweep 5 10 0 rfl hdetach
    ⟨_, List.mem_of_getElem? hjob, 1, hpick, hrow⟩

end AgentWeb.IdleSweep
