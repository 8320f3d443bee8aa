import AgentWeb.Leases

namespace AgentWeb.Restarts

open PyText Transitions Interleaving Fleet Leases

def rowsOf (g : Service) (task : Task) : List RunRow := g.runs.filter (·.id = task.runId)

theorem mem_rowsOf {g : Service} {task : Task} {row : RunRow} :
    row ∈ rowsOf g task ↔ row ∈ g.runs ∧ row.id = task.runId := by
  rw [rowsOf, List.mem_filter, decide_eq_true_eq]

theorem rowsOf_endRuns {g : Service} {which : RunRow → Bool} {task : Task}
    (h : ∀ row ∈ rowsOf g task, which row = false) : rowsOf (g.endRuns which) task = rowsOf g task := by
  rw [rowsOf, Service.endRuns, List.filter_map]
  have hid : ((fun row : RunRow => decide (row.id = task.runId)) ∘ fun row =>
      if which row then { row with running := false, ownerInstance := none } else row) =
        fun row => decide (row.id = task.runId) := by
    funext row
    rw [Function.comp_apply]
    split <;> rfl
  rw [hid]
  refine (List.map_congr_left fun row hrow => ?_).trans (List.map_id _)
  rw [h row hrow, if_neg Bool.false_ne_true, id]

/-- A reconciliation changes no row of a run whose process lives. -/
def SparesLive (s : State) (act : Act) : Prop :=
  ∀ i t, act = .reconcileRuns i → step s act = some t → ∀ task ∈ s.threads,
    s.shared.live task.process = true → rowsOf t.shared task = rowsOf s.shared task

/-- Whatever the instances do, reconciliation never touches a live run. -/
theorem reconcile_spares_live (acts : List Act) : EachStep step SparesLive State.initial acts := by
  refine eachStep_of_invariant (fun s act t => step_leases) ?_ initial_leases
  rintro s act h i t rfl ht task hmem hlive
  obtain ⟨j, hj⟩ := List.getElem?_of_mem hmem
  obtain ⟨p, hp, ht⟩ := Option.bind_eq_some_iff.mp ht
  split at ht
  · next hlife =>
    cases ht
    apply rowsOf_endRuns
    intro row hrow
    obtain ⟨hrow, hid⟩ := mem_rowsOf.mp hrow
    cases hrun : row.running with
    | false => rfl
    | true =>
        rw [← hrun]
        exact not_orphaned h.whole (h.each j task hj) hp hlife hlive hrow hid hrun
  · cases ht

/-- No process has reconciled and left a run of the process it restarts. -/
def Unlocked (s : State) : Prop :=
  ∀ q ∈ s.shared.processes, q.reconciled = true → ∀ task ∈ s.threads,
    q.previous = some task.process → ∀ row ∈ rowsOf s.shared task, row.running = false

instance (s : State) : Decidable (Unlocked s) :=
  inferInstanceAs (Decidable (∀ q ∈ s.shared.processes, q.reconciled = true → ∀ task ∈ s.threads,
    q.previous = some task.process → ∀ row ∈ rowsOf s.shared task, row.running = false))

/-- A process about to reconcile has the id of the one it restarts, or finds no
run of it. -/
def Recognises (s : State) : Act → Prop
  | .reconcileRuns i => ∀ q, s.shared.processes[i]? = some q → q.life = .starting →
      ∀ task ∈ s.threads, q.previous = some task.process →
        (∀ p, s.shared.processes[task.process]? = some p → p.instanceId = q.instanceId) ∨
          ∀ row ∈ rowsOf s.shared task, row.running = false
  | _ => True

def Lineage (R : Process → Process → Prop) (g : Service) : Prop :=
  ∀ q ∈ g.processes, ∀ i, q.previous = some i → ∃ p, g.processes[i]? = some p ∧ R p q

def Restarted : Service → Prop := Lineage fun p _ => p.life = .dead

theorem Lineage.of_processes {R : Process → Process → Prop} {g g' : Service} (h : Lineage R g)
    (hsame : g'.processes = g.processes) : Lineage R g' := by
  rw [Lineage, hsame]
  exact h

theorem Lineage.add {R : Process → Process → Prop} {g : Service} {p : Process} (h : Lineage R g)
    (hnew : ∀ i, p.previous = some i → ∃ q, g.processes[i]? = some q ∧ R q p) :
    Lineage R { g with processes := g.processes ++ [p] } := by
  intro q hq i hi
  have hold : ∃ r, g.processes[i]? = some r ∧ R r q := by
    obtain hq | rfl := mem_append_singleton.mp hq
    · exact h q hq i hi
    · exact hnew i hi
  obtain ⟨r, hr, hrq⟩ := hold
  have hlt := (List.getElem?_eq_some_iff.mp hr).choose
  exact ⟨r, by rw [List.getElem?_append_left hlt, hr], hrq⟩

theorem Lineage.setProcess {R : Process → Process → Prop} {g : Service} {i : Nat} {p p' : Process}
    (h : Lineage R g) (hp : g.processes[i]? = some p) (hprevious : p'.previous = p.previous)
    (hold : ∀ q, R p q → R p' q) (hnew : ∀ r, R r p → R r p') : Lineage R (g.setProcess i p') := by
  have hset : ∀ (j : Nat) (q r : Process), g.processes[j]? = some r → R r q →
      ∃ r', (g.setProcess i p').processes[j]? = some r' ∧ R r' q := by
    intro j q r hr hrq
    by_cases hij : i = j
    · subst hij
      cases hp.symm.trans hr
      have hlt := (List.getElem?_eq_some_iff.mp hp).choose
      exact ⟨p', List.getElem?_set_self hlt, hold q hrq⟩
    · exact ⟨r, by rw [Service.setProcess, List.getElem?_set_ne hij, hr], hrq⟩
  intro q hq j hj
  obtain hq | rfl := List.mem_or_eq_of_mem_set hq
  · obtain ⟨r, hr, hrq⟩ := h q hq j hj
    exact hset j q r hr hrq
  · obtain ⟨r, hr, hrp⟩ := h p (List.mem_of_getElem? hp) j (hprevious ▸ hj)
    exact hset j q r hr (hnew r hrp)

theorem serves_restarted {g g' : Service} {act : Act} (h : Serves g act g') (hr : Restarted g) :
    Restarted g' := by
  cases h with
  | add p hfresh hnew hprevious => exact Lineage.add hr hprevious
  | reconcileRuns i p hp hlife =>
      exact Lineage.setProcess hr hp rfl (fun _ hdead => by cases hlife.symm.trans hdead) fun _ => id
  | reconcileSandboxes i p hp hlife =>
      exact Lineage.setProcess hr hp rfl (fun _ hdead => by cases hlife.symm.trans hdead) fun _ => id
  | set i p p' hp henv hprevious hreconciled hlife =>
      refine Lineage.setProcess hr hp hprevious (fun _ hdead => ?_) fun _ => id
      obtain hsame | hdead' := hlife
      · exact hsame.trans hdead
      · exact hdead'
  | strip => exact hr

theorem moves_processes {g g' : Service} {p : Process} {task : Task} {stage : Stage}
    (h : Moves g p task g' stage) : g'.processes = g.processes := by
  cases h <;> rfl

theorem moves_runs {g g' : Service} {p : Process} {task : Task} {stage : Stage}
    (h : Moves g p task g' stage) {row : RunRow} (hrow : row ∈ g'.runs) (hrun : row.running = true) :
    row ∈ g.runs ∨ row.id = task.runId := by
  cases h with
  | claim =>
      obtain hrow | rfl := mem_append_singleton.mp hrow
      · exact .inl hrow
      · exact .inr rfl
  | release => exact .inl (mem_endRuns_running hrow hrun).1
  | early | look | make | commit | leave | strip => exact .inl hrow

structure Freed (s : State) : Prop where
  leases : Meets leases s
  restarted : Restarted s.shared
  unlocked : Unlocked s

theorem unlocked_iff {s : State} : Unlocked s ↔ ∀ q ∈ s.shared.processes, q.reconciled = true →
    ∀ task ∈ s.threads, q.previous = some task.process → ∀ row ∈ s.shared.runs,
      row.running = true → row.id ≠ task.runId := by
  constructor
  · intro h q hq hrec task hmem hprevious row hrow hrun hid
    cases hrun.symm.trans (h q hq hrec task hmem hprevious row (mem_rowsOf.mpr ⟨hrow, hid⟩))
  · intro h q hq hrec task hmem hprevious row hrow
    obtain ⟨hrow, hid⟩ := mem_rowsOf.mp hrow
    rw [← Bool.not_eq_true]
    exact fun hrun => h q hq hrec task hmem hprevious row hrow hrun hid

theorem Freed.serves {s : State} {g : Service} {act : Act} (h : Freed s) (hr : Recognises s act)
    (hserves : Serves s.shared act g) : Unlocked ⟨g, s.threads⟩ := by
  have hu := unlocked_iff.mp h.unlocked
  rw [unlocked_iff]
  cases hserves with
  | add p hfresh hnew =>
      intro q hq hrec
      obtain hq | rfl := mem_append_singleton.mp hq
      · exact hu q hq hrec
      · cases hnew.symm.trans hrec
  | reconcileRuns i p hp hlife hact =>
      intro q hq hrec task hmem hprevious row hrow hrun hid
      obtain ⟨hrow, hno⟩ := mem_endRuns_running hrow hrun
      obtain hq | rfl := List.mem_or_eq_of_mem_set hq
      · exact hu q hq hrec task hmem hprevious row hrow hrun hid
      · subst hact
        obtain ⟨j, hj⟩ := List.getElem?_of_mem hmem
        obtain ⟨r, hr', howner⟩ := (h.leases.each j task hj).owner row hrow hid hrun
        obtain hids | hnone := hr p hp hlife task hmem hprevious
        · simp [Service.orphaned, hrun, howner, hids r hr'] at hno
        · cases hrun.symm.trans (hnone row (mem_rowsOf.mpr ⟨hrow, hid⟩))
  | reconcileSandboxes i p hp hlife =>
      intro q hq hrec
      obtain hq | rfl := List.mem_or_eq_of_mem_set hq
      · exact hu q hq hrec
      · exact hu p (List.mem_of_getElem? hp) hrec
  | set i p p' hp henv hprevious hreconciled hlife =>
      intro q hq hrec
      obtain hq | rfl := List.mem_or_eq_of_mem_set hq
      · exact hu q hq hrec
      · rw [hprevious]
        exact hu p (List.mem_of_getElem? hp) (hreconciled ▸ hrec)
  | strip => exact hu

theorem Freed.request {s : State} {i : Nat} {p : Process} {userId conversationId : Str} (h : Freed s)
    (hp : s.shared.processes[i]? = some p) (hlife : p.life = .serving) :
    Unlocked ⟨{ s.shared with started := s.shared.started + 1 },
      s.threads ++ [⟨i, s.shared.started, userId, conversationId, none, .asked⟩]⟩ := by
  intro q hq hrec task hmem hprevious
  obtain hmem | rfl := mem_append_singleton.mp hmem
  · exact h.unlocked q hq hrec task hmem hprevious
  · obtain ⟨r, hr, hdead⟩ := h.restarted q hq i hprevious
    cases hp.symm.trans hr
    cases hlife.symm.trans hdead

theorem Freed.moves {s : State} {g : Service} {k : Nat} {p : Process} {task task' : Task} (h : Freed s)
    (hk : s.threads[k]? = some task) (hp : s.shared.processes[task.process]? = some p)
    (hlive : p.life ≠ .dead) (hmoves : Moves s.shared p task g task'.stage) (hsame : SameRun task task') :
    Unlocked ⟨g, s.threads.set k task'⟩ := by
  rw [unlocked_iff]
  intro q hq hrec a ha hprevious row hrow hrun hid
  have hold : ∃ b ∈ s.threads, b.process = a.process ∧ b.runId = a.runId := by
    obtain ha | rfl := List.mem_or_eq_of_mem_set ha
    · exact ⟨a, ha, rfl, rfl⟩
    · exact ⟨task, List.mem_of_getElem? hk, hsame.process.symm, hsame.runId.symm⟩
  obtain ⟨b, hb, hprocess, hrunId⟩ := hold
  rw [moves_processes hmoves] at hq
  rw [← hprocess] at hprevious
  obtain hrow | hmine := moves_runs hmoves hrow hrun
  · exact unlocked_iff.mp h.unlocked q hq hrec b hb hprevious row hrow hrun (hid.trans hrunId.symm)
  · have hbt : b = task := by
      obtain ⟨j, hj⟩ := List.getElem?_of_mem hb
      by_cases hjk : j = k
      · rw [hjk, hk] at hj
        exact (Option.some.inj hj).symm
      · exact absurd (hrunId.trans (hid.symm.trans hmine)) (h.leases.two j k b task hjk hj hk)
    obtain ⟨r, hr, hdead⟩ := h.restarted q hq b.process hprevious
    rw [hbt, hp] at hr
    cases hr
    exact hlive hdead

theorem step_freed {s t : State} {act : Act} (h : Freed s) (hr : Recognises s act)
    (ht : step s act = some t) : Freed t := by
  have hleases := step_leases h.leases ht
  obtain ⟨g, hserves, rfl⟩ | ⟨i, p, userId, conversationId, hp, hlife, rfl⟩ |
    ⟨k, task, p, g, task', hk, hp, hlive, hmoves, hsame, rfl⟩ := step_cases ht
  · exact ⟨hleases, serves_restarted hserves h.restarted, h.serves hr hserves⟩
  · exact ⟨hleases, h.restarted, h.request hp hlife⟩
  · exact ⟨hleases, Lineage.of_processes h.restarted (moves_processes hmoves),
      h.moves hk hp hlive hmoves hsame⟩

theorem recognises_of_unlocked {s t : State} {act : Act} (h : Freed s) (ht : step s act = some t)
    (hu : Unlocked t) : Recognises s act := by
  cases act with
  | reconcileRuns i =>
      intro q hq hlife task hmem hprevious
      by_contra hno
      rw [not_or] at hno
      obtain ⟨hids, hstranded⟩ := hno
      obtain ⟨q', hq', ht⟩ := Option.bind_eq_some_iff.mp ht
      cases hq.symm.trans hq'
      rw [if_pos hlife] at ht
      cases ht
      apply hstranded
      intro row hrow
      obtain ⟨hrow, hid⟩ := mem_rowsOf.mp hrow
      rw [← Bool.not_eq_true]
      intro hrun
      obtain ⟨j, hj⟩ := List.getElem?_of_mem hmem
      obtain ⟨p, hp, howner⟩ := (h.leases.each j task hj).owner row hrow hid hrun
      have hne : p.instanceId ≠ q.instanceId := by
        intro heq
        apply hids
        intro p' hp'
        cases hp.symm.trans hp'
        exact heq
      have hkept : row ∈ (s.shared.reconcileRuns q.instanceId).runs := by
        refine List.mem_map.mpr ⟨row, hrow, ?_⟩
        simp [Service.orphaned, howner, hne]
      have hfreed := hu _ (mem_set_self hq _) rfl task hmem hprevious row
        (mem_rowsOf.mpr ⟨hkept, hid⟩)
      cases hrun.symm.trans hfreed
  | _ => trivial

theorem recognises_of_stuck {s : State} {act : Act} (ht : step s act = none) : Recognises s act := by
  cases act with
  | reconcileRuns i =>
      intro q hq hlife
      rw [step, hq, Option.bind_some, if_pos hlife] at ht
      cases ht
  | _ => trivial

theorem initial_freed : Freed State.initial :=
  ⟨initial_leases, (fun q hq => by cases hq), fun q hq => by cases hq⟩

/-- A restart frees what the crash has stranded exactly when the process has the
id of the one it restarts, or there is nothing to free. -/
theorem unlocked_iff_recognises (acts : List Act) :
    Always step Unlocked State.initial acts ↔ EachStep step Recognises State.initial acts := by
  refine always_iff_eachStep (J := Freed) (fun s h => h.unlocked) ?_ ?_ ?_ initial_freed
  · exact fun s act t h hr ht => step_freed h hr ht
  · exact fun s act t h ht hu => recognises_of_unlocked h ht hu
  · exact fun s act ht => recognises_of_stuck ht

/-- A run that a crash leaves behind, where `PAW_INSTANCE_ID` is unset. -/
def stranding : List Act :=
  [.boot ⟨none, some "web", 7, "aaaaaa"⟩, .reconcileRuns 0, .reconcileSandboxes 0,
    .request 0 "u" "c", .task 0 .ok, .task 0 .ok, .task 0 .ok, .crash 0,
    .restart 0 (some "web") 8 "bbbbbb", .reconcileRuns 1]

theorem not_unlocked_unset : ¬ ∀ acts, Always step Unlocked State.initial acts := by
  intro h
  have hlost : (run step State.initial stranding).any (fun s => !decide (Unlocked s)) = true := by
    decide +kernel
  cases hrun : run step State.initial stranding with
  | none =>
      rw [hrun] at hlost
      cases hlost
  | some s =>
      rw [hrun, Option.any_some, decide_eq_true ((h stranding).final hrun)] at hlost
      cases hlost

/-- Every process has a `PAW_INSTANCE_ID`, a restarted one that of its previous
life. -/
structure Labelled (g : Service) : Prop where
  label : ∀ q ∈ g.processes, ∃ label, label ≠ [] ∧ q.environment.pawInstanceId = some label
  kept : Lineage (fun p q => p.environment.pawInstanceId = q.environment.pawInstanceId) g

theorem defaultInstanceId_explicit {e : Environment} {label : Str} (hne : label ≠ [])
    (h : e.pawInstanceId = some label) : defaultInstanceId e = label.take 64 := by
  rw [defaultInstanceId, h, Option.filter_some, if_pos (decide_eq_true hne)]

theorem Labelled.recognises {s : State} (h : Labelled s.shared) (act : Act) : Recognises s act := by
  cases act with
  | reconcileRuns i =>
      intro q hq _ task _ hprevious
      refine .inl fun p hp => ?_
      have hmem := List.mem_of_getElem? hq
      obtain ⟨label, hne, hlabel⟩ := h.label q hmem
      obtain ⟨p', hp', hkept⟩ := h.kept q hmem task.process hprevious
      cases hp.symm.trans hp'
      rw [Process.instanceId, Process.instanceId, defaultInstanceId_explicit hne (hkept.trans hlabel),
        defaultInstanceId_explicit hne hlabel]
  | _ => trivial

theorem Labelled.of_processes {g g' : Service} (h : Labelled g) (hsame : g'.processes = g.processes) :
    Labelled g' where
  label := by
    rw [hsame]
    exact h.label
  kept := h.kept.of_processes hsame

theorem Labelled.setProcess {g : Service} {i : Nat} {p p' : Process} (h : Labelled g)
    (hp : g.processes[i]? = some p) (henv : p'.environment = p.environment)
    (hprevious : p'.previous = p.previous) : Labelled (g.setProcess i p') where
  label q hq := by
    obtain hq | rfl := List.mem_or_eq_of_mem_set hq
    · exact h.label q hq
    · rw [henv]
      exact h.label p (List.mem_of_getElem? hp)
  kept := h.kept.setProcess hp hprevious (fun q hq => by rwa [henv]) fun r hr => by rwa [henv]

theorem Labelled.add {g : Service} {p : Process} (h : Labelled g)
    (hlabel : ∃ label, label ≠ [] ∧ p.environment.pawInstanceId = some label)
    (hkept : ∀ i, p.previous = some i → ∃ q, g.processes[i]? = some q ∧
      q.environment.pawInstanceId = p.environment.pawInstanceId) :
    Labelled { g with processes := g.processes ++ [p] } where
  label q hq := by
    obtain hq | rfl := mem_append_singleton.mp hq
    · exact h.label q hq
    · exact hlabel
  kept := h.kept.add hkept

theorem step_labelled {s t : State} {act : Act} (h : Labelled s.shared)
    (hact : ∀ e, act = .boot e → ∃ label, label ≠ [] ∧ e.pawInstanceId = some label)
    (ht : step s act = some t) : Labelled t.shared := by
  cases act with
  | boot e =>
      obtain ⟨g, hadd, rfl⟩ := Option.map_eq_some_iff.mp ht
      obtain ⟨-, rfl⟩ := add_eq_some.mp hadd
      exact h.add (hact e rfl) (by simp)
  | restart i hostname pid hex =>
      obtain ⟨p, hp, ht⟩ := Option.bind_eq_some_iff.mp ht
      split at ht
      · obtain ⟨g, hadd, rfl⟩ := Option.map_eq_some_iff.mp ht
        obtain ⟨-, rfl⟩ := add_eq_some.mp hadd
        refine h.add (h.label p (List.mem_of_getElem? hp)) fun j hj => ?_
        cases hj
        exact ⟨p, hp, rfl⟩
      · cases ht
  | reconcileRuns i =>
      obtain ⟨p, hp, ht⟩ := Option.bind_eq_some_iff.mp ht
      split at ht <;> cases ht
      exact Labelled.setProcess (g := s.shared.reconcileRuns p.instanceId) (h.of_processes rfl) hp rfl rfl
  | reconcileSandboxes i =>
      obtain ⟨p, hp, ht⟩ := Option.bind_eq_some_iff.mp ht
      split at ht <;> cases ht
      exact Labelled.setProcess (g := s.shared.reconcileSandboxes p.instanceId) (h.of_processes rfl) hp
        rfl rfl
  | crash i | drain i =>
      obtain ⟨p, hp, ht⟩ := Option.bind_eq_some_iff.mp ht
      split at ht <;> cases ht
      exact h.setProcess hp rfl rfl
  | request i userId conversationId =>
      obtain ⟨p, hp, ht⟩ := Option.bind_eq_some_iff.mp ht
      split at ht <;> cases ht
      exact h.of_processes rfl
  | task k outcome =>
      obtain ⟨task, g, task', -, hadv, rfl⟩ := move_eq_some.mp ht
      obtain ⟨p, -, -, hproceed⟩ := advance_eq_some.mp hadv
      exact h.of_processes (moves_processes (proceed_inv hproceed).1)
  | escalate k =>
      obtain ⟨task, -, ht⟩ := Option.bind_eq_some_iff.mp ht
      obtain ⟨sid, -, ht⟩ := Option.bind_eq_some_iff.mp ht
      split at ht <;> cases ht
      exact h.of_processes rfl
  | reap i ids =>
      simp only [step] at ht
      split at ht <;> cases ht
      exact h.of_processes rfl

theorem eachStep_of_labels {s : State} {acts : List Act} (hs : Labelled s.shared)
    (h : ∀ e, .boot e ∈ acts → ∃ label, label ≠ [] ∧ e.pawInstanceId = some label) :
    EachStep step Recognises s acts := by
  induction acts generalizing s with
  | nil => trivial
  | cons act acts ih =>
      refine ⟨hs.recognises act, fun t ht => ih (step_labelled hs ?_ ht) ?_⟩
      · rintro e rfl
        exact h e List.mem_cons_self
      · exact fun e he => h e (List.mem_cons_of_mem act he)

/-- With a `PAW_INSTANCE_ID` a restart frees everything. -/
theorem unlocked_of_labels {acts : List Act}
    (h : ∀ e, .boot e ∈ acts → ∃ label, label ≠ [] ∧ e.pawInstanceId = some label) :
    Always step Unlocked State.initial acts :=
  always_of_eachStep (fun s hs => Freed.unlocked hs) (fun s act t hs hr ht => step_freed hs hr ht)
    initial_freed (eachStep_of_labels ⟨by simp [State.initial], fun q hq => by cases hq⟩ h)

end AgentWeb.Restarts
