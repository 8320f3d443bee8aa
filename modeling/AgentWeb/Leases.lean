import AgentWeb.Fleet
import Mathlib.Data.List.Pairwise

namespace AgentWeb.Leases

open PyText Transitions Interleaving Fleet

/-- Before the run has a row, while its `start_run` looks for a sandbox, and
after that. -/
inductive Phase
  | early
  | window
  | late
  deriving DecidableEq

def phase : Stage → Phase
  | .asked | .gate | .claiming | .refused | .declined | .raised => .early
  | .ensuring | .probing _ | .reusing _ | .retiring _ | .making _ | .flushing _ _ | .committing _ _ =>
      .window
  | .failing | .failed | .launching _ | .executing _ | .gone _ | .finishing | .ended => .late

def Window (rows : List SandboxRow) : Stage → Prop
  | .probing sid | .retiring sid => ∀ row ∈ rows, row.id = sid
  | .making retired | .flushing retired _ | .committing retired _ =>
      ∀ row ∈ rows, some row.id = retired
  | _ => True

inductive Moves (g : Service) (p : Process) (task : Task) : Service → Stage → Prop
  | early (stage : Stage) (h : phase task.stage = .early) (h' : phase stage = .early) :
      Moves g p task g stage
  | claim (h : phase task.stage = .early) (hfree : g.busy task.conversationId = []) :
      Moves g p task (g.claim p.instanceId task) .ensuring
  | look (stage : Stage) (h : phase task.stage = .window) (h' : phase stage = .window)
      (hwindow : Window (g.current task.userId task.conversationId) task.stage →
        Window (g.current task.userId task.conversationId) stage) : Moves g p task g stage
  | make (retired : Option Nat) (stage : Stage) (h : task.stage = .making retired)
      (h' : stage = .failing ∨ stage = .flushing retired g.creates.length) :
      Moves g p task { g with creates := g.creates ++ [task.runId] } stage
  | commit (retired : Option Nat) (sid : Nat) (h : task.stage = .committing retired sid) :
      Moves g p task ((g.strip retired.toList).insert
        ⟨sid, task.userId, task.conversationId, true, some p.instanceId⟩) (.launching sid)
  | leave (stage : Stage) (h : phase task.stage ≠ .early) (h' : phase stage = .late) :
      Moves g p task g stage
  | release (stage : Stage) (h : phase task.stage = .late) (h' : phase stage = .late) :
      Moves g p task (g.release task.runId) stage
  | strip (ids : List Nat) (stage : Stage) (h : phase task.stage = .late) (h' : phase stage = .late) :
      Moves g p task (g.strip ids) stage

structure SameRun (a b : Task) : Prop where
  process : b.process = a.process
  runId : b.runId = a.runId
  userId : b.userId = a.userId
  conversationId : b.conversationId = a.conversationId

theorem SameRun.stage {task : Task} (sandbox : Option Nat) (stage : Stage) :
    SameRun task { task with sandbox := sandbox, stage := stage } := ⟨rfl, rfl, rfl, rfl⟩

theorem oneOrNone_none {α : Type*} {rows : List α} (h : oneOrNone rows = .ok none) : rows = [] := by
  cases rows with
  | nil => rfl
  | cons a rows => cases rows <;> cases h

theorem oneOrNone_some {α : Type*} {rows : List α} {row : α} (h : oneOrNone rows = .ok (some row)) :
    rows = [row] := by
  cases rows with
  | nil => cases h
  | cons a rows =>
      cases rows with
      | nil =>
          cases h
          rfl
      | cons b rows => cases h

theorem oneOrNone_ok_iff {α : Type*} {rows : List α} :
    (∃ row, oneOrNone rows = .ok row) ↔ rows.length ≤ 1 := by
  cases rows with
  | nil => exact iff_of_true ⟨none, rfl⟩ (Nat.zero_le 1)
  | cons a rows =>
      cases rows with
      | nil => exact iff_of_true ⟨some a, rfl⟩ (Nat.le_refl 1)
      | cons b rows =>
          refine iff_of_false ?_ (by simp)
          rintro ⟨row, h⟩
          cases h

theorem proceed_inv {g g' : Service} {p : Process} {outcome : Outcome} {task task' : Task}
    (h : proceed g p outcome task = some (g', task')) :
    Moves g p task g' task'.stage ∧ SameRun task task' := by
  obtain ⟨process, runId, userId, conversationId, sandbox, stage⟩ := task
  cases stage with
  | asked =>
      cases outcome with
      | ok =>
          simp only [proceed] at h
          split at h <;>
            · cases h
              exact ⟨.early _ rfl rfl, .stage _ _⟩
      | no | fails =>
          cases h
          exact ⟨.early _ rfl rfl, .stage _ _⟩
  | gate =>
      cases h
      refine ⟨.early _ rfl ?_, .stage _ _⟩
      split <;> rfl
  | claiming =>
      cases outcome with
      | ok =>
          simp only [proceed] at h
          split at h
          next hfree =>
            cases h
            exact ⟨.claim rfl hfree, .stage _ _⟩
          next =>
            cases h
            exact ⟨.early _ rfl rfl, .stage _ _⟩
      | no | fails =>
          cases h
          exact ⟨.early _ rfl rfl, .stage _ _⟩
  | ensuring =>
      cases outcome with
      | ok =>
          simp only [proceed] at h
          split at h
          next hnone =>
            cases h
            refine ⟨.look _ rfl rfl fun _ => ?_, .stage _ _⟩
            rw [oneOrNone_none hnone]
            simp [Window]
          next row hrow =>
            cases h
            refine ⟨.look _ rfl rfl fun _ => ?_, .stage _ _⟩
            rw [oneOrNone_some hrow]
            simp [Window]
          next =>
            cases h
            exact ⟨.leave _ (by simp [phase]) rfl, .stage _ _⟩
      | no | fails =>
          cases h
          exact ⟨.leave _ (by simp [phase]) rfl, .stage _ _⟩
  | probing sid =>
      cases outcome with
      | ok =>
          cases h
          exact ⟨.look _ rfl rfl fun _ => trivial, .stage _ _⟩
      | no =>
          cases h
          exact ⟨.look _ rfl rfl id, .stage _ _⟩
      | fails =>
          cases h
          exact ⟨.leave _ (by simp [phase]) rfl, .stage _ _⟩
  | reusing sid =>
      cases outcome <;>
        · cases h
          exact ⟨.leave _ (by simp [phase]) rfl, .stage _ _⟩
  | retiring sid =>
      cases outcome with
      | ok =>
          cases h
          refine ⟨.look _ rfl rfl ?_, .stage _ _⟩
          exact fun hw row hrow => congrArg some (hw row hrow)
      | no | fails =>
          cases h
          exact ⟨.leave _ (by simp [phase]) rfl, .stage _ _⟩
  | making retired =>
      cases outcome with
      | ok =>
          cases h
          exact ⟨.make retired _ rfl (.inr rfl), .stage _ _⟩
      | no | fails =>
          cases h
          exact ⟨.make retired _ rfl (.inl rfl), .stage _ _⟩
  | flushing retired sid =>
      cases outcome with
      | ok =>
          cases h
          exact ⟨.look _ rfl rfl id, .stage _ _⟩
      | no | fails =>
          cases h
          exact ⟨.leave _ (by simp [phase]) rfl, .stage _ _⟩
  | committing retired sid =>
      cases outcome with
      | ok =>
          cases h
          exact ⟨.commit retired sid rfl, .stage _ _⟩
      | no | fails =>
          cases h
          exact ⟨.leave _ (by simp [phase]) rfl, .stage _ _⟩
  | failing | finishing =>
      cases outcome with
      | ok =>
          cases h
          exact ⟨.release _ rfl rfl, .stage _ _⟩
      | no | fails =>
          cases h
          exact ⟨.leave _ (by simp [phase]) rfl, .stage _ _⟩
  | launching sid | executing sid =>
      cases outcome <;>
        · cases h
          exact ⟨.leave _ (by simp [phase]) rfl, .stage _ _⟩
  | gone sid =>
      cases outcome with
      | ok =>
          cases h
          exact ⟨.strip [sid] _ rfl rfl, .stage _ _⟩
      | no | fails =>
          cases h
          exact ⟨.leave _ (by simp [phase]) rfl, .stage _ _⟩
  | refused | declined | raised | failed | ended => cases outcome <;> cases h

def Apart (a b : RunRow) : Prop :=
  a.running = true → b.running = true → a.conversationId ≠ b.conversationId

def Separate (a b : SandboxRow) : Prop :=
  a.running = true → b.running = true → a.userId = b.userId → a.conversationId ≠ b.conversationId

instance : Std.Symm Apart := ⟨fun _ _ h hb ha => (h ha hb).symm⟩

/-- The rows of the database, and the ids of the instances that share it. -/
structure Sound (g : Service) : Prop where
  names : ∀ (i j : Nat) (p q : Process), i ≠ j → g.processes[i]? = some p → g.processes[j]? = some q →
    p.life ≠ .dead → q.life ≠ .dead → p.instanceId ≠ q.instanceId
  index : g.runs.Pairwise Apart
  single : g.sandboxes.Pairwise Separate
  runIds : ∀ row ∈ g.runs, row.id < g.started
  creates : ∀ k ∈ g.creates, k < g.started

/-- What the database holds about a task. Its running row is a lease of its
instance, and while that lives, nobody else touches the sandboxes of the
conversation. -/
structure Leased (g : Service) (task : Task) : Prop where
  number : task.runId < g.started
  home : ∃ p, g.processes[task.process]? = some p ∧ (p.life = .serving ∨ p.life = .dead)
  row : ∀ row ∈ g.runs, row.id = task.runId → row.conversationId = task.conversationId
  owner : ∀ row ∈ g.runs, row.id = task.runId → row.running = true →
    ∃ p, g.processes[task.process]? = some p ∧ row.ownerInstance = some p.instanceId
  clear : phase task.stage = .early → (∀ row ∈ g.runs, row.id ≠ task.runId) ∧ task.runId ∉ g.creates
  held : phase task.stage = .window → g.live task.process = true →
    ∃ row ∈ g.runs, row.id = task.runId ∧ row.running = true
  window : g.live task.process = true → Window (g.current task.userId task.conversationId) task.stage

structure Spares (task : Task) (g g' : Service) : Prop where
  started : g.started ≤ g'.started
  process : ∀ p, g.processes[task.process]? = some p → (p.life = .serving ∨ p.life = .dead) →
    ∃ p', g'.processes[task.process]? = some p' ∧ p'.instanceId = p.instanceId ∧
      (p'.life = p.life ∨ p'.life = .dead)
  rows : ∀ row ∈ g'.runs, row.id = task.runId → ∃ row' ∈ g.runs, row'.id = row.id ∧
    row'.conversationId = row.conversationId ∧
      (row.running = true → row'.running = true ∧ row'.ownerInstance = row.ownerInstance)
  creates : task.runId ∈ g'.creates → task.runId ∈ g.creates
  held : phase task.stage = .window → g'.live task.process = true → ∀ row ∈ g.runs,
    row.id = task.runId → row.running = true → ∃ row' ∈ g'.runs, row'.id = task.runId ∧ row'.running = true
  current : phase task.stage = .window → g'.live task.process = true →
    ∀ row ∈ g'.current task.userId task.conversationId,
      ∃ row' ∈ g.current task.userId task.conversationId, row'.id = row.id

theorem live_iff {g : Service} {i : Nat} :
    g.live i = true ↔ ∃ p, g.processes[i]? = some p ∧ p.life ≠ .dead := by
  simp [Service.live, Option.any_eq_true]

theorem Window.of_ids {rows rows' : List SandboxRow} {stage : Stage} (h : Window rows stage)
    (hids : phase stage = .window → ∀ row ∈ rows', ∃ row' ∈ rows, row'.id = row.id) :
    Window rows' stage := by
  cases stage with
  | probing | retiring | making | flushing | committing =>
      intro row hrow
      obtain ⟨row', hrow', hid⟩ := hids rfl row hrow
      rw [← hid]
      exact h row' hrow'
  | _ => trivial

theorem Spares.live {task : Task} {g g' : Service} (h : Spares task g g')
    (hhome : ∃ p, g.processes[task.process]? = some p ∧ (p.life = .serving ∨ p.life = .dead))
    (hlive : g'.live task.process = true) : g.live task.process = true := by
  obtain ⟨p, hp, hlife⟩ := hhome
  obtain ⟨p', hp', -, hsame⟩ := h.process p hp hlife
  obtain ⟨q, hq, hne⟩ := live_iff.mp hlive
  cases hp'.symm.trans hq
  refine live_iff.mpr ⟨p, hp, ?_⟩
  obtain hsame | hdead := hsame
  · rwa [← hsame]
  · exact absurd hdead hne

theorem Leased.spare {task : Task} {g g' : Service} (h : Leased g task) (hs : Spares task g g') :
    Leased g' task where
  number := Nat.lt_of_lt_of_le h.number hs.started
  home := by
    obtain ⟨p, hp, hlife⟩ := h.home
    obtain ⟨p', hp', -, hsame⟩ := hs.process p hp hlife
    refine ⟨p', hp', ?_⟩
    obtain hsame | hdead := hsame
    · rwa [hsame]
    · exact .inr hdead
  row row hrow hid := by
    obtain ⟨row', hrow', hid', hconv, -⟩ := hs.rows row hrow hid
    exact hconv ▸ h.row row' hrow' (hid'.trans hid)
  owner row hrow hid hrun := by
    obtain ⟨row', hrow', hid', -, hsame⟩ := hs.rows row hrow hid
    obtain ⟨hrun', howner⟩ := hsame hrun
    obtain ⟨p, hp, hlife⟩ := h.home
    obtain ⟨q, hq, hmine⟩ := h.owner row' hrow' (hid'.trans hid) hrun'
    cases hp.symm.trans hq
    obtain ⟨p', hp', hname, -⟩ := hs.process p hp hlife
    exact ⟨p', hp', by rw [← howner, hmine, hname]⟩
  clear hearly := by
    obtain ⟨hrows, hcreates⟩ := h.clear hearly
    refine ⟨fun row hrow hid => ?_, fun hmem => hcreates (hs.creates hmem)⟩
    obtain ⟨row', hrow', hid', -⟩ := hs.rows row hrow hid
    exact hrows row' hrow' (hid'.trans hid)
  held hwindow hlive := by
    obtain ⟨row, hrow, hid, hrun⟩ := h.held hwindow (hs.live h.home hlive)
    exact hs.held hwindow hlive row hrow hid hrun
  window hlive := (h.window (hs.live h.home hlive)).of_ids fun hwindow => hs.current hwindow hlive

theorem Spares.refl (task : Task) (g : Service) : Spares task g g where
  started := Nat.le_refl _
  process p hp _ := ⟨p, hp, rfl, .inl rfl⟩
  rows row hrow _ := ⟨row, hrow, rfl, rfl, fun hrun => ⟨hrun, rfl⟩⟩
  creates h := h
  held _ _ row hrow hid hrun := ⟨row, hrow, hid, hrun⟩
  current _ _ row hrow := ⟨row, hrow, rfl⟩

theorem mem_endRuns {g : Service} {which : RunRow → Bool} {row : RunRow}
    (h : row ∈ (g.endRuns which).runs) : ∃ row' ∈ g.runs, row'.id = row.id ∧
      row'.conversationId = row.conversationId ∧ (row.running = true → row' = row) := by
  obtain ⟨row', hrow', rfl⟩ := List.mem_map.mp h
  refine ⟨row', hrow', ?_⟩
  split
  · exact ⟨rfl, rfl, fun h => by cases h⟩
  · exact ⟨rfl, rfl, fun _ => rfl⟩

theorem mem_endRuns_running {g : Service} {which : RunRow → Bool} {row : RunRow}
    (h : row ∈ (g.endRuns which).runs) (hrun : row.running = true) :
    row ∈ g.runs ∧ which row = false := by
  obtain ⟨row', hrow', rfl⟩ := List.mem_map.mp h
  split at hrun
  · cases hrun
  · next hno =>
    rw [if_neg hno]
    exact ⟨hrow', by simpa using hno⟩

theorem mem_retire {g : Service} {which : SandboxRow → Bool} {row : SandboxRow}
    (h : row ∈ (g.retire which).sandboxes) (hrun : row.running = true) :
    row ∈ g.sandboxes ∧ which row = false := by
  obtain ⟨row', hrow', rfl⟩ := List.mem_map.mp h
  split at hrun
  · cases hrun
  · next hno =>
    rw [if_neg hno]
    exact ⟨hrow', by simpa using hno⟩

theorem mem_current {g : Service} {userId conversationId : Str} {row : SandboxRow} :
    row ∈ g.current userId conversationId ↔ row ∈ g.sandboxes ∧ row.userId = userId ∧
      row.conversationId = conversationId ∧ row.running = true := by
  simp [Service.current, and_assoc]

theorem endRuns_spares {task : Task} {g : Service} {which : RunRow → Bool}
    (h : g.live task.process = true → ∀ row ∈ g.runs, row.id = task.runId → row.running = true →
      which row = false) : Spares task g (g.endRuns which) :=
  { Spares.refl task g with
    rows := by
      intro row hrow _
      obtain ⟨row', hrow', hid, hconv, hsame⟩ := mem_endRuns hrow
      refine ⟨row', hrow', hid, hconv, fun hrun => ?_⟩
      cases hsame hrun
      exact ⟨hrun, rfl⟩
    held := by
      intro _ hlive row hrow hid hrun
      refine ⟨row, List.mem_map.mpr ⟨row, hrow, ?_⟩, hid, hrun⟩
      rw [h hlive row hrow hid hrun, if_neg Bool.false_ne_true] }

theorem retire_spares (task : Task) (g : Service) (which : SandboxRow → Bool) :
    Spares task g (g.retire which) :=
  { Spares.refl task g with
    current := by
      intro _ _ row hrow
      obtain ⟨hmem, huser, hconv, hrun⟩ := mem_current.mp hrow
      exact ⟨row, mem_current.mpr ⟨(mem_retire hmem hrun).1, huser, hconv, hrun⟩, rfl⟩ }

theorem claim_spares {task mine : Task} (g : Service) (instanceId : Str)
    (hne : mine.runId ≠ task.runId) : Spares task g (g.claim instanceId mine) :=
  { Spares.refl task g with
    rows := by
      intro row hrow hid
      obtain hrow | rfl := mem_append_singleton.mp hrow
      · exact ⟨row, hrow, rfl, rfl, fun hrun => ⟨hrun, rfl⟩⟩
      · exact absurd hid hne
    held := fun _ _ row hrow hid hrun => ⟨row, List.mem_append_left _ hrow, hid, hrun⟩ }

theorem create_spares {task : Task} (g : Service) {runId : Nat} (hne : runId ≠ task.runId) :
    Spares task g { g with creates := g.creates ++ [runId] } :=
  { Spares.refl task g with
    creates := by
      intro hmem
      obtain hmem | hmem := mem_append_singleton.mp hmem
      · exact hmem
      · exact absurd hmem.symm hne }

theorem insert_spares {task : Task} (g : Service) {row : SandboxRow}
    (h : phase task.stage = .window → g.live task.process = true →
      row.conversationId ≠ task.conversationId) : Spares task g (g.insert row) :=
  { Spares.refl task g with
    current := by
      intro hwindow hlive row' hrow'
      obtain ⟨hmem, huser, hconv, hrun⟩ := mem_current.mp hrow'
      obtain hmem | rfl := mem_append_singleton.mp hmem
      · exact ⟨row', mem_current.mpr ⟨hmem, huser, hconv, hrun⟩, rfl⟩
      · exact absurd hconv (h hwindow hlive) }

theorem processes_spares {task : Task} {g : Service} {processes : List Process} {started : Nat}
    (hstarted : g.started ≤ started)
    (h : ∀ p, g.processes[task.process]? = some p → (p.life = .serving ∨ p.life = .dead) →
      ∃ p', processes[task.process]? = some p' ∧ p'.instanceId = p.instanceId ∧
        (p'.life = p.life ∨ p'.life = .dead)) :
    Spares task g { g with processes := processes, started := started } where
  started := hstarted
  process := h
  rows := (Spares.refl task g).rows
  creates := id
  held _ _ row hrow hid hrun := ⟨row, hrow, hid, hrun⟩
  current _ _ row hrow := ⟨row, hrow, rfl⟩

theorem setProcess_spares (task : Task) {g : Service} {i : Nat} {p p' : Process}
    (hp : g.processes[i]? = some p) (hname : p'.environment = p.environment)
    (hlife : p.life = .serving ∨ p.life = .dead → p'.life = p.life ∨ p'.life = .dead) :
    Spares task g (g.setProcess i p') := by
  refine processes_spares (Nat.le_refl _) ?_
  intro q hq hqlife
  by_cases hi : i = task.process
  · subst hi
    cases hp.symm.trans hq
    have hlt := (List.getElem?_eq_some_iff.mp hp).choose
    exact ⟨p', List.getElem?_set_self hlt, congrArg defaultInstanceId hname, hlife hqlife⟩
  · exact ⟨q, by rw [List.getElem?_set_ne hi, hq], rfl, .inl rfl⟩

theorem add_eq_some {g g' : Service} {e : Environment} {previous : Option Nat} :
    g.add e previous = some g' ↔ Fresh g e ∧
      g' = { g with processes := g.processes ++ [{ environment := e, previous := previous }] } := by
  rw [Service.add]
  split
  · next h => simp [h, eq_comm]
  · next h => simp [h]

theorem add_spares (task : Task) (g : Service) (p : Process) :
    Spares task g { g with processes := g.processes ++ [p] } := by
  refine processes_spares (Nat.le_refl _) ?_
  intro q hq _
  have hlt := (List.getElem?_eq_some_iff.mp hq).choose
  exact ⟨q, by rw [List.getElem?_append_left hlt, hq], rfl, .inl rfl⟩

theorem Sound.endRuns {g : Service} (h : Sound g) (which : RunRow → Bool) : Sound (g.endRuns which) where
  names := h.names
  index := by
    rw [Service.endRuns, List.pairwise_map]
    refine h.index.imp ?_
    intro a b hab ha hb
    split at ha
    · cases ha
    · split at hb
      · cases hb
      · next hna hnb =>
        rw [if_neg hna, if_neg hnb]
        exact hab ha hb
  single := h.single
  runIds row hrow := by
    obtain ⟨row', hrow', hid, -⟩ := mem_endRuns hrow
    exact hid ▸ h.runIds row' hrow'
  creates := h.creates

theorem Sound.retire {g : Service} (h : Sound g) (which : SandboxRow → Bool) :
    Sound (g.retire which) where
  names := h.names
  index := h.index
  single := by
    rw [Service.retire, List.pairwise_map]
    refine h.single.imp ?_
    intro a b hab ha hb
    split at ha
    · cases ha
    · split at hb
      · cases hb
      · next hna hnb =>
        rw [if_neg hna, if_neg hnb]
        exact hab ha hb
  runIds := h.runIds
  creates := h.creates

theorem Sound.claim {g : Service} {task : Task} (h : Sound g) (instanceId : Str)
    (hfree : g.busy task.conversationId = []) (hnumber : task.runId < g.started) :
    Sound (g.claim instanceId task) where
  names := h.names
  index := by
    rw [Service.claim, List.pairwise_append]
    refine ⟨h.index, List.pairwise_singleton _ _, ?_⟩
    intro a ha b hb hrun _ hconv
    obtain rfl := List.mem_singleton.mp hb
    have hmem : a ∈ g.busy task.conversationId := by
      simp [Service.busy, ha, hrun, hconv]
    rw [hfree] at hmem
    cases hmem
  single := h.single
  runIds row hrow := by
    obtain hrow | rfl := mem_append_singleton.mp hrow
    · exact h.runIds row hrow
    · exact hnumber
  creates := h.creates

theorem Sound.insert {g : Service} {row : SandboxRow} (h : Sound g)
    (hnone : g.current row.userId row.conversationId = []) : Sound (g.insert row) where
  names := h.names
  index := h.index
  single := by
    rw [Service.insert, List.pairwise_append]
    refine ⟨h.single, List.pairwise_singleton _ _, ?_⟩
    intro a ha b hb hrun _ huser hconv
    obtain rfl := List.mem_singleton.mp hb
    have hmem := mem_current.mpr ⟨ha, huser, hconv, hrun⟩
    rw [hnone] at hmem
    cases hmem
  runIds := h.runIds
  creates := h.creates

theorem Sound.setProcess {g : Service} {i : Nat} {p p' : Process} (h : Sound g)
    (hp : g.processes[i]? = some p) (hname : p'.environment = p.environment)
    (hlife : p'.life ≠ .dead → p.life ≠ .dead) : Sound (g.setProcess i p') where
  names j k q r hjk hj hk hq hr := by
    have hsame : ∀ (m : Nat) (a : Process), (g.processes.set i p')[m]? = some a → a.life ≠ .dead →
        ∃ b, g.processes[m]? = some b ∧ b.instanceId = a.instanceId ∧ b.life ≠ .dead := by
      intro m a hm ha
      obtain ⟨rfl, rfl⟩ | ⟨-, hm⟩ := getElem?_set_cases hm
      · exact ⟨p, hp, congrArg defaultInstanceId hname.symm, hlife ha⟩
      · exact ⟨a, hm, rfl, ha⟩
    obtain ⟨q', hq', hqid, hqlife⟩ := hsame j q hj hq
    obtain ⟨r', hr', hrid, hrlife⟩ := hsame k r hk hr
    rw [← hqid, ← hrid]
    exact h.names j k q' r' hjk hq' hr' hqlife hrlife
  index := h.index
  single := h.single
  runIds := h.runIds
  creates := h.creates

theorem Sound.add {g : Service} {p : Process} (h : Sound g) (hfresh : Fresh g p.environment) :
    Sound { g with processes := g.processes ++ [p] } where
  names i j q r hij hi hj hq hr := by
    obtain ⟨hi', rfl⟩ | hi' := getElem?_append_cases hi
    · obtain ⟨hj', rfl⟩ | hj' := getElem?_append_cases hj
      · exact absurd (hi'.trans hj'.symm) hij
      · exact (hfresh r (List.mem_of_getElem? hj') hr).symm
    · obtain ⟨-, rfl⟩ | hj' := getElem?_append_cases hj
      · exact hfresh q (List.mem_of_getElem? hi') hq
      · exact h.names i j q r hij hi' hj' hq hr
  index := h.index
  single := h.single
  runIds := h.runIds
  creates := h.creates

def leases : Outline Service Task where
  whole := Sound
  each := Leased
  two a b := a.runId ≠ b.runId
  symm _ _ h := h.symm

theorem conversations_ne {g : Service} {a b : Task} (hs : Sound g) (ha : Leased g a) (hb : Leased g b)
    (hne : a.runId ≠ b.runId) (hwa : phase a.stage = .window) (hwb : phase b.stage = .window)
    (hla : g.live a.process = true) (hlb : g.live b.process = true) :
    a.conversationId ≠ b.conversationId := by
  obtain ⟨ra, hra, hida, hruna⟩ := ha.held hwa hla
  obtain ⟨rb, hrb, hidb, hrunb⟩ := hb.held hwb hlb
  rw [← ha.row ra hra hida, ← hb.row rb hrb hidb]
  refine hs.index.forall hra hrb ?_ hruna hrunb
  rintro rfl
  exact hne (hida.symm.trans hidb)

theorem Moves.sound {g g' : Service} {p : Process} {task : Task} {stage : Stage}
    (h : Moves g p task g' stage) (hp : g.processes[task.process]? = some p) (hlive : p.life ≠ .dead)
    (hs : Sound g) (ht : Leased g task) : Sound g' := by
  cases h with
  | early | look | leave => exact hs
  | claim _ hfree => exact hs.claim p.instanceId hfree ht.number
  | make retired stage hstage =>
      refine { hs with creates := fun k hk => ?_ }
      obtain hk | rfl := mem_append_singleton.mp hk
      · exact hs.creates k hk
      · exact ht.number
  | commit retired sid hstage =>
      apply (hs.retire _).insert
      rw [List.eq_nil_iff_forall_not_mem]
      intro row hrow
      obtain ⟨hmem, huser, hconv, hrun⟩ := mem_current.mp hrow
      obtain ⟨hmem, hno⟩ := mem_retire hmem hrun
      have hw := ht.window (live_iff.mpr ⟨p, hp, hlive⟩)
      rw [hstage] at hw
      have hid := hw row (mem_current.mpr ⟨hmem, huser, hconv, hrun⟩)
      rw [← hid] at hno
      simp at hno
  | release => exact hs.endRuns _
  | strip => exact hs.retire _

theorem Moves.others {g g' : Service} {p : Process} {task a : Task} {stage : Stage}
    (h : Moves g p task g' stage) (hp : g.processes[task.process]? = some p) (hlive : p.life ≠ .dead)
    (hs : Sound g) (ht : Leased g task) (ha : Leased g a) (hne : task.runId ≠ a.runId) :
    Leased g' a := by
  cases h with
  | early | look | leave => exact ha
  | claim => exact ha.spare (claim_spares g p.instanceId hne)
  | make => exact ha.spare (create_spares g hne)
  | commit retired sid hstage =>
      refine (ha.spare (retire_spares a g _)).spare (insert_spares _ ?_)
      intro hwindow hlive'
      exact conversations_ne hs ht ha hne (by rw [hstage]; rfl) hwindow
        (live_iff.mpr ⟨p, hp, hlive⟩) hlive'
  | release =>
      refine ha.spare (endRuns_spares ?_)
      rintro _ row _ hid _
      rw [hid]
      exact decide_eq_false hne.symm
  | strip => exact ha.spare (retire_spares a g _)

theorem window_of_phase {rows : List SandboxRow} {stage : Stage} (h : phase stage ≠ .window) :
    Window rows stage := by
  cases stage <;> trivial

theorem Leased.late {g g' : Service} {task task' : Task} (h : Leased g task) (hs : SameRun task task')
    (hlate : phase task'.stage = .late) (hstarted : g'.started = g.started)
    (hprocesses : g'.processes = g.processes)
    (hruns : ∀ row ∈ g'.runs, ∃ row' ∈ g.runs, row'.id = row.id ∧
      row'.conversationId = row.conversationId ∧ (row.running = true → row' = row)) :
    Leased g' task' where
  number := by
    rw [hs.runId, hstarted]
    exact h.number
  home := by
    rw [hs.process, hprocesses]
    exact h.home
  row row hrow hid := by
    obtain ⟨row', hrow', hid', hconv, -⟩ := hruns row hrow
    rw [hs.conversationId, ← hconv]
    exact h.row row' hrow' (hid'.trans (hid.trans hs.runId))
  owner row hrow hid hrun := by
    obtain ⟨row', hrow', hid', -, hsame⟩ := hruns row hrow
    cases hsame hrun
    rw [hs.process, hprocesses]
    exact h.owner row hrow' (hid.trans hs.runId) hrun
  clear hearly := by
    rw [hlate] at hearly
    cases hearly
  held hwindow := by
    rw [hlate] at hwindow
    cases hwindow
  window _ := window_of_phase (by simp [hlate])

theorem Moves.self {g g' : Service} {p : Process} {task task' : Task}
    (h : Moves g p task g' task'.stage) (hsame : SameRun task task')
    (hp : g.processes[task.process]? = some p) (ht : Leased g task) : Leased g' task' := by
  have hrefl : ∀ row ∈ g.runs, ∃ row' ∈ g.runs, row'.id = row.id ∧
      row'.conversationId = row.conversationId ∧ (row.running = true → row' = row) :=
    fun row hrow => ⟨row, hrow, rfl, rfl, fun _ => rfl⟩
  obtain ⟨process, runId, userId, conversationId, sandbox, stage⟩ := task'
  obtain ⟨rfl, rfl, rfl, rfl⟩ := hsame
  cases h with
  | early stage hearly hearly' =>
      exact ⟨ht.number, ht.home, ht.row, ht.owner, fun _ => ht.clear hearly,
        fun hwindow => by simp [hearly'] at hwindow, fun _ => window_of_phase (by simp [hearly'])⟩
  | claim hearly hfree =>
      obtain ⟨hrows, hcreates⟩ := ht.clear hearly
      have hmine : ∀ row ∈ (g.claim p.instanceId task).runs, row.id = task.runId →
          row = ⟨task.runId, task.conversationId, true, some p.instanceId⟩ := by
        intro row hrow hid
        obtain hrow | hrow := mem_append_singleton.mp hrow
        · exact absurd hid (hrows row hrow)
        · exact hrow
      refine ⟨ht.number, ht.home, ?_, ?_, ?_, ?_, fun _ => trivial⟩
      · intro row hrow hid
        rw [hmine row hrow hid]
      · intro row hrow hid _
        rw [hmine row hrow hid]
        exact ⟨p, hp, rfl⟩
      · intro hphase
        cases hphase
      · intro _ _
        exact ⟨_, List.mem_append_right _ List.mem_cons_self, rfl, rfl⟩
  | look stage hw hw' hwindow =>
      refine ⟨ht.number, ht.home, ht.row, ht.owner, fun hearly => ?_, fun _ => ht.held hw,
        fun hlive => hwindow (ht.window hlive)⟩
      simp [hw'] at hearly
  | make retired stage hstage hnext =>
      obtain rfl | rfl := hnext
      · exact ht.late (.stage _ _) rfl rfl rfl hrefl
      · refine ⟨ht.number, ht.home, ht.row, ht.owner, fun hearly => ?_, fun _ => ?_, fun hlive => ?_⟩
        · cases hearly
        · exact ht.held (by rw [hstage]; rfl)
        · have hw := ht.window hlive
          rw [hstage] at hw
          exact hw
  | commit retired sid hstage => exact ht.late (.stage _ _) rfl rfl rfl hrefl
  | leave stage hphase hlate => exact ht.late (.stage _ _) hlate rfl rfl hrefl
  | release stage hphase hlate =>
      exact ht.late (.stage _ _) hlate rfl rfl fun row hrow => mem_endRuns hrow
  | strip ids stage hphase hlate => exact ht.late (.stage _ _) hlate rfl rfl hrefl

theorem advance_eq_some {g g' : Service} {outcome : Outcome} {task task' : Task} :
    advance g outcome task = some (g', task') ↔ ∃ p, g.processes[task.process]? = some p ∧
      p.life ≠ .dead ∧ proceed g p outcome task = some (g', task') := by
  simp only [advance, Option.bind_eq_some_iff]
  constructor
  · rintro ⟨p, hp, h⟩
    split at h
    · cases h
    · next hlive => exact ⟨p, hp, hlive, h⟩
  · rintro ⟨p, hp, hlive, h⟩
    exact ⟨p, hp, by rw [if_neg hlive, h]⟩

inductive Serves (g : Service) (act : Act) : Service → Prop
  | add (p : Process) (hfresh : Fresh g p.environment) (hnew : p.reconciled = false)
      (hprevious : ∀ i, p.previous = some i → ∃ q, g.processes[i]? = some q ∧ q.life = .dead) :
      Serves g act { g with processes := g.processes ++ [p] }
  | reconcileRuns (i : Nat) (p : Process) (hp : g.processes[i]? = some p) (hlife : p.life = .starting)
      (hact : act = .reconcileRuns i) : Serves g act ((g.reconcileRuns p.instanceId).setProcess i { p with life := .settling, reconciled := true })
  | reconcileSandboxes (i : Nat) (p : Process) (hp : g.processes[i]? = some p) (hlife : p.life = .settling) :
      Serves g act ((g.reconcileSandboxes p.instanceId).setProcess i { p with life := .serving })
  | set (i : Nat) (p p' : Process) (hp : g.processes[i]? = some p) (henv : p'.environment = p.environment)
      (hprevious : p'.previous = p.previous) (hreconciled : p'.reconciled = p.reconciled)
      (hlife : p'.life = p.life ∨ p'.life = .dead) : Serves g act (g.setProcess i p')
  | strip (ids : List Nat) : Serves g act (g.strip ids)

theorem step_cases {s t : State} {act : Act} (ht : step s act = some t) :
    (∃ g, Serves s.shared act g ∧ t = ⟨g, s.threads⟩) ∨
    (∃ i p userId conversationId, s.shared.processes[i]? = some p ∧ p.life = .serving ∧
      t = ⟨{ s.shared with started := s.shared.started + 1 },
        s.threads ++ [⟨i, s.shared.started, userId, conversationId, none, .asked⟩]⟩) ∨
    ∃ k task p g task', s.threads[k]? = some task ∧ s.shared.processes[task.process]? = some p ∧
      p.life ≠ .dead ∧ Moves s.shared p task g task'.stage ∧ SameRun task task' ∧
        t = ⟨g, s.threads.set k task'⟩ := by
  cases act with
  | boot e =>
      obtain ⟨g, hadd, rfl⟩ := Option.map_eq_some_iff.mp ht
      obtain ⟨hfresh, rfl⟩ := add_eq_some.mp hadd
      exact .inl ⟨_, .add ⟨e, none, .starting, false, false⟩ hfresh rfl (by simp), rfl⟩
  | restart i hostname pid hex =>
      obtain ⟨p, hp, ht⟩ := Option.bind_eq_some_iff.mp ht
      split at ht
      · next hdead =>
        obtain ⟨g, hadd, rfl⟩ := Option.map_eq_some_iff.mp ht
        obtain ⟨hfresh, rfl⟩ := add_eq_some.mp hadd
        refine .inl ⟨_, .add ⟨_, some i, .starting, false, false⟩ hfresh rfl ?_, rfl⟩
        intro j hj
        cases hj
        exact ⟨p, hp, hdead⟩
      · cases ht
  | reconcileRuns i =>
      obtain ⟨p, hp, ht⟩ := Option.bind_eq_some_iff.mp ht
      split at ht
      · next hlife =>
        cases ht
        exact .inl ⟨_, .reconcileRuns i p hp hlife rfl, rfl⟩
      · cases ht
  | reconcileSandboxes i =>
      obtain ⟨p, hp, ht⟩ := Option.bind_eq_some_iff.mp ht
      split at ht
      · next hlife =>
        cases ht
        exact .inl ⟨_, .reconcileSandboxes i p hp hlife, rfl⟩
      · cases ht
  | crash i =>
      obtain ⟨p, hp, ht⟩ := Option.bind_eq_some_iff.mp ht
      split at ht
      · cases ht
      · cases ht
        exact .inl ⟨_, .set i p { p with life := .dead } hp rfl rfl rfl (.inr rfl), rfl⟩
  | drain i =>
      obtain ⟨p, hp, ht⟩ := Option.bind_eq_some_iff.mp ht
      split at ht
      · cases ht
        exact .inl ⟨_, .set i p { p with draining := true } hp rfl rfl rfl (.inl rfl), rfl⟩
      · cases ht
  | request i userId conversationId =>
      obtain ⟨p, hp, ht⟩ := Option.bind_eq_some_iff.mp ht
      split at ht
      · next hlife =>
        cases ht
        exact .inr (.inl ⟨i, p, userId, conversationId, hp, hlife, rfl⟩)
      · cases ht
  | task k outcome =>
      obtain ⟨task, g, task', hk, hadv, rfl⟩ := move_eq_some.mp ht
      obtain ⟨p, hp, hlive, hproceed⟩ := advance_eq_some.mp hadv
      obtain ⟨hmoves, hsame⟩ := proceed_inv hproceed
      exact .inr (.inr ⟨k, task, p, g, task', hk, hp, hlive, hmoves, hsame, rfl⟩)
  | escalate k =>
      obtain ⟨task, -, ht⟩ := Option.bind_eq_some_iff.mp ht
      obtain ⟨sid, -, ht⟩ := Option.bind_eq_some_iff.mp ht
      split at ht
      · cases ht
        exact .inl ⟨_, .strip [sid], rfl⟩
      · cases ht
  | reap i ids =>
      simp only [step] at ht
      split at ht
      · cases ht
        exact .inl ⟨_, .strip ids, rfl⟩
      · cases ht

theorem Serves.sound {g g' : Service} {act : Act} (h : Serves g act g') (hs : Sound g) : Sound g' := by
  cases h with
  | add p hfresh => exact hs.add hfresh
  | reconcileRuns i p hp hlife =>
      exact (hs.endRuns _).setProcess hp rfl fun _ => by simp [hlife]
  | reconcileSandboxes i p hp hlife =>
      exact (hs.retire _).setProcess hp rfl fun _ => by simp [hlife]
  | set i p p' hp henv _ _ hlife =>
      refine hs.setProcess hp henv fun hne => ?_
      obtain hsame | hdead := hlife
      · rwa [← hsame]
      · exact absurd hdead hne
  | strip => exact hs.retire _

theorem not_orphaned {g : Service} {task : Task} {i : Nat} {p : Process} {row : RunRow} (hs : Sound g)
    (ht : Leased g task) (hp : g.processes[i]? = some p) (hlife : p.life = .starting)
    (hlive : g.live task.process = true) (hrow : row ∈ g.runs) (hid : row.id = task.runId)
    (hrun : row.running = true) : Service.orphaned p.instanceId row.running row.ownerInstance = false := by
  obtain ⟨q, hq, hhome⟩ := ht.home
  obtain ⟨q', hq', howner⟩ := ht.owner row hrow hid hrun
  cases hq.symm.trans hq'
  have hne : i ≠ task.process := by
    rintro rfl
    cases hp.symm.trans hq
    rw [hlife] at hhome
    obtain h | h := hhome <;> cases h
  obtain ⟨q', hq', hqlive⟩ := live_iff.mp hlive
  cases hq.symm.trans hq'
  have hnames := hs.names i task.process p q hne hp hq (by simp [hlife]) hqlive
  simp [Service.orphaned, howner, hnames.symm]

theorem Serves.others {g g' : Service} {act : Act} {task : Task} (h : Serves g act g') (hs : Sound g)
    (ht : Leased g task) : Leased g' task := by
  cases h with
  | add p hfresh => exact ht.spare (add_spares task g p)
  | reconcileRuns i p hp hlife =>
      have hends : Spares task g (g.reconcileRuns p.instanceId) := endRuns_spares
        fun hlive row hrow hid hrun => not_orphaned hs ht hp hlife hlive hrow hid hrun
      refine (ht.spare hends).spare (setProcess_spares task hp rfl fun hhome => ?_)
      rw [hlife] at hhome
      obtain h | h := hhome <;> cases h
  | reconcileSandboxes i p hp hlife =>
      refine (ht.spare (retire_spares task g _)).spare (setProcess_spares task hp rfl fun hhome => ?_)
      rw [hlife] at hhome
      obtain h | h := hhome <;> cases h
  | set i p p' hp henv _ _ hlife => exact ht.spare (setProcess_spares task hp henv fun _ => hlife)
  | strip => exact ht.spare (retire_spares task g _)

theorem step_leases {s t : State} {act : Act} (h : Meets leases s) (ht : step s act = some t) :
    Meets leases t := by
  obtain ⟨g, hserves, rfl⟩ | ⟨i, p, userId, conversationId, hp, hlife, rfl⟩ |
    ⟨k, task, p, g, task', hk, hp, hlive, hmoves, hsame, rfl⟩ := step_cases ht
  · exact ⟨hserves.sound h.whole, fun i a hi => hserves.others h.whole (h.each i a hi), h.two⟩
  · refine h.arrive ?_ ?_ ?_
    · exact { h.whole with
        runIds := fun row hrow => Nat.lt_succ_of_lt (h.whole.runIds row hrow)
        creates := fun k hk => Nat.lt_succ_of_lt (h.whole.creates k hk) }
    · have hnew : ∀ row ∈ s.shared.runs, row.id ≠ s.shared.started :=
        fun row hrow => (h.whole.runIds row hrow).ne
      refine ⟨Nat.lt_succ_self _, ⟨p, hp, .inl hlife⟩, fun row hrow hid => absurd hid (hnew row hrow),
        fun row hrow hid => absurd hid (hnew row hrow), fun _ => ⟨hnew, fun hmem => ?_⟩,
        (fun hwindow => by cases hwindow), fun _ => trivial⟩
      exact (h.whole.creates _ hmem).ne rfl
    · intro a _ ha
      refine ⟨ha.spare (processes_spares (Nat.le_succ _) fun p hp _ => ⟨p, hp, rfl, .inl rfl⟩), ?_⟩
      exact ha.number.ne'
  · have hleased := h.each k task hk
    refine h.move hk (hmoves.sound hp hlive h.whole hleased) (hmoves.self hsame hp hleased) ?_
    intro j a _ _ ha hne
    refine ⟨hmoves.others hp hlive h.whole hleased ha hne, ?_⟩
    change task'.runId ≠ a.runId
    rw [hsame.runId]
    exact hne

theorem initial_leases : Meets leases State.initial where
  whole := ⟨(fun i j p q _ hp => by cases hp), .nil, .nil, by simp [State.initial],
    by simp [State.initial]⟩
  each i task hi := by cases hi
  two i j a b _ hi := by cases hi

end AgentWeb.Leases
