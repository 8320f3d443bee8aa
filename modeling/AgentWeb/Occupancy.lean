import AgentWeb.Leases

namespace AgentWeb.Occupancy

open PyText Transitions Interleaving Fleet Leases

theorem length_filter_le_one {α : Type*} {R : α → α → Prop} {rows : List α} {p : α → Bool}
    (h : rows.Pairwise R) (hp : ∀ a b, p a = true → p b = true → ¬ R a b) :
    (rows.filter p).length ≤ 1 := by
  have hfilter := h.filter p
  have hmem : ∀ a ∈ rows.filter p, p a = true := fun a ha => (List.mem_filter.mp ha).2
  cases hrows : rows.filter p with
  | nil => exact Nat.zero_le 1
  | cons a rest =>
      cases rest with
      | nil => exact Nat.le_refl 1
      | cons b rest =>
          rw [hrows] at hfilter hmem
          have hab := List.rel_of_pairwise_cons hfilter List.mem_cons_self
          exact absurd hab (hp a b (hmem a List.mem_cons_self)
            (hmem b (List.mem_cons_of_mem a List.mem_cons_self)))

/-- One running run for each conversation, and a `start_run` that found it
running has called `Runner.create` for nothing and left no row. -/
structure Claimed (s : State) : Prop where
  once : ∀ conversationId, (s.shared.busy conversationId).length ≤ 1
  losers : ∀ task ∈ s.threads, task.stage = .refused →
    s.shared.creates.count task.runId = 0 ∧ s.shared.runs.filter (·.id = task.runId) = []

theorem Sound.busy_le {g : Service} (h : Sound g) (conversationId : Str) :
    (g.busy conversationId).length ≤ 1 := by
  apply length_filter_le_one h.index
  intro a b ha hb hab
  rw [Bool.and_eq_true, decide_eq_true_eq] at ha hb
  exact hab ha.2 hb.2 (ha.1.trans hb.1.symm)

theorem Sound.current_le {g : Service} (h : Sound g) (userId conversationId : Str) :
    (g.current userId conversationId).length ≤ 1 := by
  apply length_filter_le_one h.single
  intro a b ha hb hab
  simp only [Bool.and_eq_true, decide_eq_true_eq] at ha hb
  exact hab ha.2 hb.2 (ha.1.1.trans hb.1.1.symm) (ha.1.2.trans hb.1.2.symm)

/-- The claim on a conversation is held by one run, and losers leave nothing. -/
theorem claimed_once (acts : List Act) : Always step Claimed State.initial acts := by
  refine always_of_invariant ?_ (fun s act t => step_leases) initial_leases
  intro s h
  refine ⟨Sound.busy_le h.whole, fun task hmem hrefused => ?_⟩
  obtain ⟨i, hi⟩ := List.getElem?_of_mem hmem
  obtain ⟨hrows, hcreates⟩ := (h.each i task hi).clear (by rw [hrefused]; rfl)
  refine ⟨List.count_eq_zero.mpr hcreates, ?_⟩
  simpa [List.filter_eq_nil_iff] using hrows

/-- A conversation of a user has one running sandbox at most, and so the lookup
of `_ensure_sandbox` does not raise. -/
theorem one_running_sandbox (acts : List Act) :
    Always step (fun s => ∀ userId conversationId,
      (s.shared.current userId conversationId).length ≤ 1 ∧
        ∃ row, oneOrNone (s.shared.current userId conversationId) = .ok row) State.initial acts := by
  refine always_of_invariant ?_ (fun s act t => step_leases) initial_leases
  intro s h userId conversationId
  have hle := Sound.current_le h.whole userId conversationId
  exact ⟨hle, oneOrNone_ok_iff.mpr hle⟩

end AgentWeb.Occupancy
