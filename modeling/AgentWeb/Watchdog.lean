import AgentWeb.Successor

namespace AgentWeb.Watchdog

open Transitions Interleaving Resident ExecLock OneExec Controller Bookings Naming Successor

def waits (r : Resident.State) : Job → Option Nat
  | .waking run _ | .watching run _ _ => some run
  | .escalating run _ k => match r.threads[k]? with
    | some (.destroyIfRunning _ _) => some run
    | _ => none
  | _ => none

/-- A cancelled run that has the live slot of its sandbox has a watchdog. -/
def Guarded (s : System) : Prop :=
  ∀ r a, s.shared.active r = some a → a.escalationArmed = true →
    s.shared.runner.shared.live a.sandboxId = some r →
      ∃ job ∈ s.threads, waits s.shared.runner job = some r

/-- The sandbox in which an `exec_run` has still to claim the slot, and its
run. -/
def ahead : Thread → Option (Nat × Nat)
  | .execRun sid runId | .insertLock sid runId => some (sid, runId)
  | .turn x .acquire | .turn x .liveCheck | .turn x .prepare | .turn x (.aliveCheck _)
  | .turn x (.readReady _) | .turn x (.ping _) | .turn x (.probe _ _)
  | .turn x (.retire _ .respawn) | .turn x (.closing _ .respawn) | .turn x .respawn
  | .turn x (.awaitReady _) | .turn x (.register _) | .turn x (.touch _)
  | .turn x (.negotiate _) | .turn x (.awaitHello _) | .turn x (.claim _) =>
      some (x.sandboxId, x.runId)
  | _ => none

/-- The same for a run whose worker has still to call `exec_run`. -/
def heads : Job → Option (Nat × Nat)
  | .enrolling c sid | .launching c sid | .ready c sid => some (sid, c.runId)
  | _ => none

def Ahead (s : System) (p : Nat × Nat) : Prop :=
  p.1 ∈ s.shared.runner.shared.sandboxes ∧ ((∃ job ∈ s.threads, heads job = some p) ∨
    ∃ th ∈ s.shared.runner.threads, ahead th = some p)

def decides : Thread → Option (Nat × Nat)
  | .destroyIfRunning sid runId => some (sid, runId)
  | _ => none

def wakes : Job → Bool
  | .waking _ _ => true
  | _ => false

/-- A watchdog that does not find its run in the slot comes after the run could
claim it, and the thread of a watchdog starts. -/
def Reaches (s : System) : Controller.Act → Prop
  | .runner k _ => ∀ th ∈ s.shared.runner.threads[k]?, ∀ p ∈ decides th,
      s.shared.runner.shared.live p.1 ≠ some p.2 → ¬ Ahead s p
  | .job _ .ok => True
  | .job k _ => ∀ job ∈ s.threads[k]?, wakes job = false
  | _ => True

instance (s : System) (p : Nat × Nat) : Decidable (Ahead s p) :=
  inferInstanceAs (Decidable (_ ∧ ((∃ job ∈ s.threads, heads job = some p) ∨
    ∃ th ∈ s.shared.runner.threads, ahead th = some p)))

instance (s : System) : (a : Controller.Act) → Decidable (Reaches s a)
  | .runner k _ => inferInstanceAs (Decidable (∀ th ∈ s.shared.runner.threads[k]?,
      ∀ p ∈ decides th, s.shared.runner.shared.live p.1 ≠ some p.2 → ¬ Ahead s p))
  | .job _ .ok => .isTrue trivial
  | .job k .fails | .job k .dies | .job k (.fresh _) | .job k (.verdict _) =>
      inferInstanceAs (Decidable (∀ job ∈ s.threads[k]?, wakes job = false))
  | .request _ | .destroy _ | .tick _ => .isTrue trivial

/-- Whoever has asked for a relay to the harness of a run: the run and the
sandbox that `_active` had for it. -/
def asks : Job → Option (Nat × Nat)
  | .marking runId sid | .sending _ runId sid | .sent _ runId sid _ | .arming runId sid
  | .waking runId sid | .watching runId sid _ | .escalating runId sid _ => some (runId, sid)
  | _ => none

/-- The run of a `start_run` that has not put it in `_active` yet. -/
def early : Job → Option Nat
  | .ensuring c | .probing c _ _ | .touching c _ _ | .retiring c _ | .making c _
  | .creating c _ _ _ | .flushing c _ _ | .committing c _ _ | .registering c _ | .undoing c _
  | .destroying c _ | .failing c => some c.runId
  | _ => none

/-- A run is in `_active` once, always with the same sandbox. -/
def paired : Outline Backend Job where
  whole g := ∀ r a, g.active r = some a → r < g.runs.length
  each g job := (∀ r sid, asks job = some (r, sid) →
      r < g.runs.length ∧ ∀ a, g.active r = some a → a.sandboxId = sid) ∧
    ∀ r, early job = some r → r < g.runs.length ∧ g.active r = none
  two a b := (∀ r sid, asks a = some (r, sid) → early b ≠ some r) ∧
    (∀ r sid, asks b = some (r, sid) → early a ≠ some r) ∧ ∀ r, early a = some r → early b ≠ some r
  symm _ _ h := ⟨h.2.1, h.1, fun r hb ha => h.2.2 r ha hb⟩

theorem passes_asks {g : Backend} {o : Outcome} {job job' : Job} (h : Passes g o job job')
    {r sid : Nat} (ha : asks job' = some (r, sid)) :
    asks job = some (r, sid) ∨ ∃ a, g.active r = some a ∧ a.sandboxId = sid := by
  cases h with
  | cancel _ a hactive | ask _ _ a hactive =>
      cases ha
      exact .inr ⟨a, hactive, rfl⟩
  | _ => first | exact .inl ha | simp [asks] at ha

theorem passes_early {g : Backend} {o : Outcome} {job job' : Job} (h : Passes g o job job')
    {r : Nat} (he : early job' = some r) : early job = some r := by
  cases h <;> exact he

theorem calls_asks {st : Settings} {g : Backend} {job : Job} {c : Call} {f : Nat → Job}
    (h : Calls st g job c f) (k : Nat) : asks (f k) = asks job ∧ early (f k) = early job := by
  cases h <;> exact ⟨rfl, rfl⟩

theorem paired_frame {s : System} {k : Nat} {job job' : Job} {g : Backend} (h : Meets paired s)
    (hk : s.threads[k]? = some job) (hruns : g.runs.length = s.shared.runs.length)
    (hactive : ∀ r a, g.active r = some a →
      ∃ a', s.shared.active r = some a' ∧ a'.sandboxId = a.sandboxId)
    (hasks : ∀ r sid, asks job' = some (r, sid) → asks job = some (r, sid) ∨
      ∃ a, s.shared.active r = some a ∧ a.sandboxId = sid)
    (hearly : ∀ r, early job' = some r → early job = some r) :
    Meets paired ⟨g, s.threads.set k job'⟩ := by
  have hgone : ∀ r, s.shared.active r = none → g.active r = none := by
    intro r hnone
    cases ha : g.active r with
    | none => rfl
    | some a =>
        obtain ⟨a', ha', -⟩ := hactive r a ha
        simp [hnone] at ha'
  have heach : ∀ b, paired.each s.shared b → paired.each g b := by
    refine fun b hb => ⟨fun r sid ha => ?_, fun r he => ?_⟩
    · obtain ⟨hlt, hsame⟩ := hb.1 r sid ha
      refine ⟨hruns ▸ hlt, fun a hr => ?_⟩
      obtain ⟨a', ha', hsid⟩ := hactive r a hr
      exact hsid ▸ hsame a' ha'
    · obtain ⟨hlt, hnone⟩ := hb.2 r he
      exact ⟨hruns ▸ hlt, hgone r hnone⟩
  have hjob := h.each k job hk
  refine h.move hk (fun r a ha => ?_) ⟨fun r sid ha => ?_, fun r he => ?_⟩
    (fun j b _ hj hb htwo => ⟨heach b hb, fun r sid ha => ?_, fun r sid ha he => ?_,
      fun r he => htwo.2.2 r (hearly r he)⟩)
  · obtain ⟨a', ha', -⟩ := hactive r a ha
    rw [hruns]
    exact h.whole r a' ha'
  · rcases hasks r sid ha with hold | ⟨a, hr, rfl⟩
    · exact (heach job hjob).1 r sid hold
    · refine ⟨hruns ▸ h.whole r a hr, fun a' hr' => ?_⟩
      obtain ⟨a'', hr'', hsid⟩ := hactive r a' hr'
      cases hr.symm.trans hr''
      exact hsid.symm
  · exact (heach job hjob).2 r (hearly r he)
  · rcases hasks r sid ha with hold | ⟨a, hr, rfl⟩
    · exact htwo.1 r sid hold
    · intro he
      simp [(hb.2 r he).2] at hr
  · exact htwo.2.1 r sid ha (hearly r he)

theorem paired_idle {s : System} {k : Nat} {job job' : Job} {g : Backend} (h : Meets paired s)
    (hk : s.threads[k]? = some job) (hruns : g.runs.length = s.shared.runs.length)
    (hactive : ∀ r a, g.active r = some a →
      ∃ a', s.shared.active r = some a' ∧ a'.sandboxId = a.sandboxId)
    (hasks : asks job' = none) (hearly : early job' = none) :
    Meets paired ⟨g, s.threads.set k job'⟩ := by
  refine paired_frame h hk hruns hactive (fun r sid ha => ?_) (of_none hearly)
  simp [hasks] at ha

theorem step_paired {st : Settings} {s s' : System} {a : Controller.Act} (h : Meets paired s)
    (hstep : Controller.step st s a = some s') : Meets paired s' := by
  rcases step_cases hstep with ⟨q, rfl⟩ | ⟨k, o, job, g, job', -, hk, hm, rfl⟩ | ⟨act, r, -, -, rfl⟩
  · have hnone : asks q.job = none ∧ early q.job = none := by cases q <;> exact ⟨rfl, rfl⟩
    refine h.arrive h.whole ⟨?_, ?_⟩ fun b _ hb => ⟨hb, ?_, ?_, ?_⟩ <;> simp [hnone]
  · have hsame : ∀ r a, s.shared.active r = some a →
        ∃ a', s.shared.active r = some a' ∧ a'.sandboxId = a.sandboxId := fun r a ha => ⟨a, ha, rfl⟩
    have hclosed : ∀ r', ∀ r a, (s.shared.setActive r' none).active r = some a →
        ∃ a', s.shared.active r = some a' ∧ a'.sandboxId = a.sandboxId :=
      fun r' r a ha => hsame r a (active_of_closed ha)
    cases hm with
    | pass job job' hp =>
        exact paired_frame h hk rfl hsame (fun r sid => passes_asks hp) fun r => passes_early hp
    | call job c f g' hc hg =>
        obtain ⟨-, rfl⟩ := call_eq_some hg
        obtain ⟨ha, he⟩ := calls_asks hc s.shared.next
        exact paired_frame h hk rfl hsame (fun r sid h => .inl (ha ▸ h)) fun r h => he ▸ h
    | create c retired sid g' hg =>
        obtain ⟨-, rfl⟩ := call_eq_some hg
        exact paired_frame h hk rfl hsame (by simp [asks]) fun r => id
    | claim user conversation hb =>
        have heach : ∀ b, paired.each s.shared b →
            paired.each { s.shared with runs := s.shared.runs ++ [⟨conversation, .running⟩] } b := by
          refine fun b hb => ⟨fun r sid ha => ?_, fun r he => ?_⟩
          · exact ⟨by simp [Nat.lt_succ_of_lt (hb.1 r sid ha).1], (hb.1 r sid ha).2⟩
          · exact ⟨by simp [Nat.lt_succ_of_lt (hb.2 r he).1], (hb.2 r he).2⟩
        have hfresh : s.shared.active s.shared.runs.length = none := by
          cases ha : s.shared.active s.shared.runs.length with
          | none => rfl
          | some a => exact absurd (h.whole _ a ha) (Nat.lt_irrefl _)
        refine h.move hk (fun r a ha => ?_) ⟨by simp [asks], fun r he => ?_⟩
          (fun j b _ _ hb htwo => ⟨heach b hb, by simp [asks], fun r sid ha he => ?_, fun r he he' => ?_⟩)
        · simp [Nat.lt_succ_of_lt (h.whole r a ha)]
        · cases he
          exact ⟨by simp, hfresh⟩
        · cases he
          exact absurd (hb.1 _ sid ha).1 (Nat.lt_irrefl _)
        · cases he
          exact absurd (hb.2 _ he').1 (Nat.lt_irrefl _)
    | register c sid =>
        refine h.move hk (fun r a ha => ?_) ⟨by simp [asks], by simp [early]⟩
          (fun j b _ _ hb htwo => ⟨⟨fun r sid' ha => ?_, fun r he => ?_⟩, by simp [asks],
            by simp [early], by simp [early]⟩)
        · rcases setActive_cases ha with ⟨rfl, -⟩ | hold
          · exact ((h.each k _ hk).2 _ rfl).1
          · exact h.whole r a hold
        · refine ⟨(hb.1 r sid' ha).1, fun a hr => ?_⟩
          rcases setActive_cases hr with ⟨rfl, -⟩ | hold
          · exact absurd rfl (htwo.2.1 _ sid' ha)
          · exact (hb.1 r sid' ha).2 a hold
        · have hne : r ≠ c.runId := by
            rintro rfl
            exact htwo.2.2 _ rfl he
          refine ⟨(hb.2 r he).1, ?_⟩
          simpa [Backend.setActive, hne] using (hb.2 r he).2
    | arm runId sid a ha =>
        refine paired_frame h hk rfl (fun r b hb => ?_) (fun r sid => .inl) (of_none rfl)
        rcases setActive_cases hb with ⟨rfl, hnew⟩ | hold
        · cases hnew
          exact ⟨a, ha, rfl⟩
        · exact hsame r b hold
    | fail c =>
        exact paired_idle h hk (by simp [Backend.setActive, Backend.finish]) (hclosed c.runId) rfl rfl
    | unfailed c => exact paired_idle h hk rfl (hclosed c.runId) rfl rfl
    | close c sid => exact paired_idle h hk rfl (hclosed c.runId) rfl rfl
    | finish c => exact paired_idle h hk (by simp [Backend.finish]) hsame rfl rfl
    | commit => exact paired_frame h hk rfl hsame (by simp [asks]) fun r => id
    | enroll | launch | gone | leave | strip | drain => exact paired_idle h hk rfl hsame rfl rfl
  · exact ⟨h.whole, h.each, h.two⟩

theorem initial_paired (clock : Int) : Meets paired (System.initial clock) where
  whole := nofun
  each := by simp [System.initial]
  two := by simp [System.initial]

def Held (r : Resident.State) : Prop :=
  ∀ sid run, r.shared.live sid = some run → sid ∈ r.shared.sandboxes

theorem goes_ahead {g : Registry} {reply : Reply} {x : Turn} {p p' : Phase}
    (h : Goes g reply x p p') {q : Nat × Nat} (hq : ahead (.turn x p') = some q) :
    ahead (.turn x p) = some q := by
  cases h with
  | closed next => cases next <;> exact hq
  | _ => first | exact hq | simp [ahead] at hq

theorem move_ahead {g g' : Registry} {reply : Reply} {th th' : Thread}
    (hm : Move g reply th g' th') {q : Nat × Nat} (hq : ahead th' = some q) :
    ahead th = some q := by
  cases hm with
  | read _ _ hr =>
      cases hr with
      | turn x p p' hgo => exact goes_ahead hgo hq
      | _ => first | exact hq | simp [ahead] at hq
  | sweepClose _ _ _ _ _ _ h => rcases h with rfl | rfl <;> simp [ahead] at hq
  | retire x t next => cases next <;> exact hq
  | close x t next p h =>
      rcases h with rfl | rfl
      · cases next <;> exact hq
      · simp [ahead] at hq
  | awaitReady x t h hr p hp =>
      rcases hp with rfl | rfl
      · exact hq
      · simp [ahead] at hq
  | _ => first | exact hq | simp [ahead] at hq

theorem move_live {g g' : Registry} {reply : Reply} {th th' : Thread}
    (hm : Move g reply th g' th') {sid run : Nat} (hlive : g'.live sid = some run) :
    g.live sid = some run ∨ sid ∈ g.sandboxes ∧ ahead th = some (sid, run) := by
  have hdetach : ∀ gone, (g.detach gone).live sid = some run → g.live sid = some run := by
    intro gone h
    by_cases he : sid = gone <;> simp_all [Registry.live, Registry.detach]
  cases hm with
  | adopt new t =>
      by_cases he : sid = new <;>
        simp_all [Registry.live, Registry.register, Registry.insertLock]
  | destroy gone | fell gone => exact .inl (hdetach gone hlive)
  | take _ _ gone => exact .inl (hdetach gone hlive)
  | detachVanished x => exact .inl (hdetach x.sandboxId hlive)
  | claim x t hin =>
      by_cases he : sid = x.sandboxId
      · subst he
        simp only [Registry.live, Registry.claimLiveRun, Function.update_self, Option.join_some,
          Option.some.injEq] at hlive
        exact .inr ⟨hin, by rw [ahead, hlive]⟩
      · exact .inl (by simpa [Registry.live, Registry.claimLiveRun, he] using hlive)
  | release x answer =>
      by_cases he : sid = x.sandboxId
      · subst he
        simp only [Registry.live, Registry.releaseLiveRun, Function.update_self] at hlive
        split at hlive <;> simp at hlive
      · exact .inl (by simpa [Registry.live, Registry.releaseLiveRun, he] using hlive)
  | touch | relayTouch | touchTurn =>
      rw [Registry.touch_frame] at hlive
      exact .inl hlive
  | retire =>
      rw [Registry.retire_frame] at hlive
      exact .inl hlive
  | _ => exact .inl hlive

theorem move_held {r : Resident.State} {reply : Reply} {g' : Registry} {th th' : Thread}
    (h : Held r) (hm : Move r.shared reply th g' th') {sid run : Nat}
    (hlive : g'.live sid = some run) : sid ∈ g'.sandboxes := by
  have hold : sid ∈ r.shared.sandboxes := (move_live hm hlive).elim (h sid run) And.left
  have hdetach : ∀ gone, (r.shared.detach gone).live sid = some run →
      sid ∈ (r.shared.detach gone).sandboxes := by
    intro gone hl
    refine detach_sandboxes.mpr ⟨hold, ?_⟩
    rintro rfl
    simp [Registry.live, Registry.detach] at hl
  cases hm with
  | enter new => exact List.mem_append_left _ hold
  | destroy gone | fell gone => exact hdetach gone hlive
  | take _ _ gone => exact hdetach gone hlive
  | detachVanished x => exact hdetach x.sandboxId hlive
  | touch | relayTouch | touchTurn =>
      rw [Registry.touch_frame]
      exact hold
  | retire =>
      rw [Registry.retire_frame]
      exact hold
  | _ => exact hold

theorem step_held {r r' : Resident.State} {a : Resident.Act} (h : Held r)
    (hstep : Resident.step r a = some r') : Held r' := by
  cases a with
  | tick now =>
      cases hstep
      exact h
  | call c =>
      obtain ⟨-, rfl⟩ := step_call hstep
      exact h
  | advance k reply =>
      obtain ⟨th, g, th', -, hm, rfl⟩ := step_advance hstep
      exact fun sid run => move_held h hm

def Settled (s : System) (p : Nat × Nat) : Prop :=
  s.shared.runner.shared.live p.1 ≠ some p.2 ∧ ¬ Ahead s p

def Armed (s : System) : Prop :=
  ∀ r a, s.shared.active r = some a → a.escalationArmed = true →
    (∃ job ∈ s.threads, waits s.shared.runner job = some r) ∨ Settled s (a.sandboxId, r)

theorem settled_drive {s : System} {r : Resident.State} {a : Resident.Act} {p : Nat × Nat}
    (hknown : Known s.shared.runner p.1) (h : Settled s p)
    (hcall : ∀ c, a = .call c → ahead c.thread = none)
    (hr : Resident.step s.shared.runner a = some r) :
    Settled ⟨{ s.shared with runner := r }, s.threads⟩ p := by
  obtain ⟨hlive, hahead⟩ := h
  have hback : ∀ th ∈ r.threads, ahead th = some p →
      ∃ th ∈ s.shared.runner.threads, ahead th = some p := by
    intro th hth hq
    cases a with
    | tick now =>
        cases hr
        exact ⟨th, hth, hq⟩
    | call c =>
        obtain ⟨-, rfl⟩ := step_call hr
        rcases mem_append_singleton.mp hth with hold | rfl
        · exact ⟨th, hold, hq⟩
        · rw [hcall c rfl] at hq
          simp at hq
    | advance k reply =>
        obtain ⟨th₀, g, th', hk, hm, rfl⟩ := step_advance hr
        rcases List.mem_or_eq_of_mem_set hth with hold | rfl
        · exact ⟨th, hold, hq⟩
        · exact ⟨th₀, List.mem_of_getElem? hk, move_ahead hm hq⟩
  refine ⟨fun hl => ?_, fun ⟨hin, hp⟩ => ?_⟩
  · cases a with
    | tick now =>
        cases hr
        exact hlive hl
    | call c =>
        obtain ⟨-, rfl⟩ := step_call hr
        exact hlive hl
    | advance k reply =>
        obtain ⟨th, g, th', hk, hm, rfl⟩ := step_advance hr
        rcases move_live hm hl with hold | ⟨hin, hq⟩
        · exact hlive hold
        · exact hahead ⟨hin, .inr ⟨th, List.mem_of_getElem? hk, hq⟩⟩
  · refine hahead ⟨?_, hp.imp id fun ⟨th, hth, hq⟩ => hback th hth hq⟩
    by_contra hgone
    exact step_absent hknown hgone hr hin

theorem moves_heads {st : Settings} {g g' : Backend} {o : Outcome} {job job' : Job}
    (hm : Moves st g o job g' job') {p : Nat × Nat} (h : heads job' = some p) :
    heads job = some p ∨ ∃ c sid, job = .registering c sid ∧ c.runId = p.2 := by
  cases hm with
  | pass _ _ hp => exact .inl (by cases hp <;> first | exact h | simp [heads] at h)
  | call _ _ _ _ hc => exact .inl (by cases hc <;> simp [heads] at h)
  | register c sid =>
      cases h
      exact .inr ⟨c, sid, rfl, rfl⟩
  | enroll | launch => exact .inl h
  | _ => simp [heads] at h

theorem moves_ahead {st : Settings} {g g' : Backend} {o : Outcome} {job job' : Job}
    (hm : Moves st g o job g' job') {th : Thread} (hth : th ∈ g'.runner.threads) {p : Nat × Nat}
    (h : ahead th = some p) :
    (∃ th ∈ g.runner.threads, ahead th = some p) ∨ heads job = some p := by
  cases hm with
  | call _ c _ _ hc hg =>
      obtain ⟨-, rfl⟩ := call_eq_some hg
      rcases mem_append_singleton.mp hth with hold | rfl
      · exact .inl ⟨th, hold, h⟩
      · cases hc with
        | execRun => exact .inr h
        | _ => simp [Call.thread, ahead] at h
  | create _ _ _ _ hg =>
      obtain ⟨-, rfl⟩ := call_eq_some hg
      rcases mem_append_singleton.mp hth with hold | rfl
      · exact .inl ⟨th, hold, h⟩
      · simp [Call.thread, ahead] at h
  | _ => exact .inl ⟨th, hth, h⟩

theorem settled_moves {st : Settings} {s : System} {k : Nat} {o : Outcome} {job job' : Job}
    {g : Backend} {p : Nat × Nat} (hk : s.threads[k]? = some job)
    (hm : Moves st s.shared o job g job')
    (hreg : ∀ c sid, job = .registering c sid → c.runId ≠ p.2) (h : Settled s p) :
    Settled ⟨g, s.threads.set k job'⟩ p := by
  obtain ⟨hlive, hahead⟩ := h
  obtain ⟨-, -, named, hshared⟩ := moves_still hm
  have hjob := List.mem_of_getElem? hk
  refine ⟨?_, fun ⟨hin, hp⟩ => hahead ⟨?_, ?_⟩⟩
  · simp only [hshared]
    exact hlive
  · simpa only [hshared] using hin
  · rcases hp with ⟨b, hb, hq⟩ | ⟨th, hth, hq⟩
    · rcases List.mem_or_eq_of_mem_set hb with hold | rfl
      · exact .inl ⟨b, hold, hq⟩
      · rcases moves_heads hm hq with hold | ⟨c, sid, hc, he⟩
        · exact .inl ⟨job, hjob, hold⟩
        · exact absurd he (hreg c sid hc)
    · exact (moves_ahead hm hth hq).symm.imp (fun hold => ⟨job, hjob, hold⟩) id

theorem moves_waits {st : Settings} {g g' : Backend} {o : Outcome} {job job' : Job}
    (hm : Moves st g o job g' job') {r : Nat} (h : waits g.runner job = some r) :
    waits g'.runner job' = some r ∨ g.active r = none ∨ o ≠ .ok ∧ wakes job = true := by
  cases hm with
  | pass _ _ hp =>
      cases hp with
      | woken runId sid deadline => exact .inl h
      | sleep => exact .inl h
      | unwoken runId sid ho => exact .inr (.inr ⟨ho, rfl⟩)
      | honoured runId sid deadline hnone =>
          cases h
          exact .inr (.inl hnone)
      | stoodDown _ _ k ha | escalated _ _ k _ ha =>
          rw [answer_eq_some] at ha
          simp [waits, ha] at h
      | _ => simp [waits] at h
  | call _ c f _ hc hg =>
      obtain ⟨-, rfl⟩ := call_eq_some hg
      cases hc with
      | destroyIfRunning runId sid deadline =>
          cases h
          exact .inl (by simp [waits, State.arrive, Backend.next, Call.thread])
      | _ => simp [waits] at h
  | _ => simp [waits] at h

theorem moves_active {st : Settings} {g g' : Backend} {o : Outcome} {job job' : Job}
    (hm : Moves st g o job g' job') {r : Nat} {a : ActiveRun} (h : g'.active r = some a)
    (harmed : a.escalationArmed = true) :
    g.active r = some a ∨ waits g'.runner job' = some r := by
  cases hm with
  | call _ _ _ _ _ hg | create _ _ _ _ hg =>
      obtain ⟨-, rfl⟩ := call_eq_some hg
      exact .inl h
  | register =>
      rcases setActive_cases h with ⟨-, hnew⟩ | hold
      · cases hnew
        cases harmed
      · exact .inl hold
  | arm =>
      rcases setActive_cases h with ⟨rfl, -⟩ | hold
      · exact .inr rfl
      · exact .inl hold
  | fail | unfailed | close => exact .inl (active_of_closed h)
  | _ => exact .inl h

theorem waits_of_kept {r r' : Resident.State}
    (h : ∀ (k : Nat) (th : Thread), r.threads[k]? = some th → r'.threads[k]? = some th) {job : Job}
    {run : Nat} (hw : waits r job = some run) : waits r' job = some run := by
  cases job with
  | escalating run' sid k =>
      simp only [waits] at hw ⊢
      split at hw
      next hk => rw [h k _ hk]; exact hw
      next => simp at hw
  | _ => exact hw

theorem drive_waits {s : System} {r : Resident.State} {act : Resident.Act} {job : Job} {run : Nat}
    (hwaits : Waits s) (hjob : job ∈ s.threads) (hr : Resident.step s.shared.runner act = some r)
    (hw : waits s.shared.runner job = some run) :
    waits r job = some run ∨ ∃ sid k reply g th', act = .advance k reply ∧
      asks job = some (run, sid) ∧
      s.shared.runner.threads[k]? = some (.destroyIfRunning sid run) ∧
      Move s.shared.runner.shared reply (.destroyIfRunning sid run) g th' ∧
      r = ⟨g, s.shared.runner.threads.set k th'⟩ := by
  cases job with
  | escalating run' sid k =>
      rcases hwaits.escalating run' sid k hjob with hk | ⟨t, a, hk⟩ | ⟨a, hk⟩
      · have he : run' = run := by simpa [waits, hk] using hw
        subst he
        rcases step_thread hr hk with hsame | ⟨reply, g, th', hact, hmove, hg, -⟩
        · exact .inl (by simp [waits, hsame])
        · exact .inr ⟨sid, k, reply, g, th', hact, rfl, hk, hmove, hg⟩
      · simp [waits, hk] at hw
      · simp [waits, hk] at hw
  | _ => exact .inl hw

theorem step_armed {st : Settings} {s s' : System} {a : Controller.Act} (hpair : Meets paired s)
    (hacq : Acquainted s) (hwaits : Waits s) (hheld : Held s.shared.runner) (h : Armed s)
    (hg : Reaches s a) (hstep : Controller.step st s a = some s') : Armed s' := by
  rcases step_cases hstep with ⟨q, rfl⟩ | ⟨k, o, job, g, job', rfl, hk, hm, rfl⟩ |
    ⟨act, r', hact, hr, rfl⟩
  · intro r b hb harmed
    rcases h r b hb harmed with ⟨job, hjob, hw⟩ | ⟨hlive, hahead⟩
    · exact .inl ⟨job, List.mem_append_left _ hjob, hw⟩
    · refine .inr ⟨hlive, fun ⟨hin, hp⟩ => hahead ⟨hin, hp.imp ?_ id⟩⟩
      rintro ⟨job, hjob, hq⟩
      rcases mem_append_singleton.mp hjob with hold | rfl
      · exact ⟨job, hold, hq⟩
      · cases q <;> simp [Request.job, heads] at hq
  · intro r b hb harmed
    rcases moves_active hm hb harmed with hold | hnew
    · rcases h r b hold harmed with ⟨w, hw, hwr⟩ | hset
      · left
        obtain ⟨j, hj⟩ := List.getElem?_of_mem hw
        by_cases hjk : j = k
        · subst hjk
          cases hk.symm.trans hj
          rcases moves_waits hm hwr with hgo | hnone | ⟨ho, hwakes⟩
          · exact ⟨job', mem_set_self hk _, hgo⟩
          · simp [hold] at hnone
          · have hsleeps : wakes job = false := by
              cases o with
              | ok => exact absurd rfl ho
              | _ => exact hg job hk
            simp [hsleeps] at hwakes
        · exact ⟨w, List.mem_of_getElem? ((List.getElem?_set_ne (Ne.symm hjk)).trans hj),
            waits_of_kept (moves_still hm).1 hwr⟩
      · refine .inr (settled_moves hk hm (fun c sid he => ?_) hset)
        subst he
        rintro rfl
        have hnone := ((hpair.each k _ hk).2 _ rfl).2
        simp [hold] at hnone
    · exact .inl ⟨job', mem_set_self hk _, hnew⟩
  · intro r b hb harmed
    have hcall : ∀ c, act = .call c → ahead c.thread = none := by
      rintro c rfl
      obtain ⟨sid, rfl⟩ := drives_call hact
      rfl
    have hknown : Known s.shared.runner b.sandboxId := hacq.active r b hb
    rcases h r b hb harmed with ⟨w, hw, hwr⟩ | hset
    · rcases drive_waits hwaits hw hr hwr with hstay |
        ⟨sid, k, reply, g, th', rfl, hasks, hk, hmove, rfl⟩
      · exact .inl ⟨w, hw, hstay⟩
      · right
        obtain ⟨j, hj⟩ := List.getElem?_of_mem hw
        obtain rfl := ((hpair.each j w hj).1 r sid hasks).2 b hb
        cases hmove with
        | read _ _ hread =>
            cases hread with
            | spared _ _ hno =>
                have hlive : s.shared.runner.shared.live b.sandboxId ≠ some r := by
                  intro hl
                  have hyes : s.shared.runner.shared.detaches b.sandboxId
                      (fun _ live => live = some r) = true :=
                    detaches_eq_true.mpr ⟨hheld _ _ hl, by simp [hl]⟩
                  simp [hno] at hyes
                have hreach : ¬ Ahead s (b.sandboxId, r) := by
                  cases a with
                  | runner i rep =>
                      cases hact
                      exact hg _ hk _ rfl hlive
                  | _ => simp [Act.drives] at hact
                exact settled_drive (p := (b.sandboxId, r)) hknown ⟨hlive, hreach⟩ hcall hr
        | fell _ _ hin hl =>
            refine ⟨by simp [Registry.live, Registry.detach], fun hahead => ?_⟩
            exact (detach_sandboxes.mp hahead.1).2 rfl
    · exact .inr (settled_drive hknown hset hcall hr)

structure Watched (s : System) : Prop where
  reserved : Meets reserved s.shared.runner
  paired : Meets paired s
  acquainted : Acquainted s
  waits : Waits s
  held : Held s.shared.runner
  armed : Armed s

theorem step_watched {st : Settings} {s s' : System} {a : Controller.Act} (h : Watched s)
    (hg : Reaches s a) (hstep : Controller.step st s a = some s') : Watched s' where
  reserved := step_runner_invariant (fun _ _ _ => step_reserved) h.reserved hstep
  paired := step_paired h.paired hstep
  acquainted := step_acquainted h.reserved h.acquainted hstep
  waits := step_waits h.waits hstep
  held := step_runner_invariant (fun _ _ _ => step_held) h.held hstep
  armed := step_armed h.paired h.acquainted h.waits h.held h.armed hg hstep

theorem initial_watched (clock : Int) : Watched (System.initial clock) where
  reserved := initial_reserved clock []
  paired := initial_paired clock
  acquainted := initial_acquainted clock
  waits := by constructor <;> simp [System.initial]
  held := nofun
  armed := by simp [Armed, System.initial]

/-- No cancelled run outlives its watchdog in a run whose watchdogs start, and
decide when their run can no longer come into the slot. -/
theorem guarded_of_reaches (st : Settings) (clock : Int) (acts : List Controller.Act)
    (h : EachStep (Controller.step st) Reaches (System.initial clock) acts) :
    Always (Controller.step st) Guarded (System.initial clock) acts := by
  refine always_of_eachStep (J := Watched) (fun s hs r a ha harmed hlive => ?_)
    (fun _ _ _ => step_watched) (initial_watched clock) h
  rcases hs.armed r a ha harmed with hwatch | hset
  · exact hwatch
  · exact absurd hlive hset.1

/-- Job `j`, a cancel just requested, asks the harness in `n` steps of call `k`,
and its watchdog waits until `now` and makes call `k + 1`. -/
def cancels (j k n : Nat) (now : Int) : List Controller.Act :=
  List.replicate 3 (Act.job j .ok) ++ List.replicate n (Act.runner k .ok) ++
    List.replicate 3 (Act.job j .ok) ++ [Controller.Act.tick now, .job j .ok, .runner (k + 1) .ok]

def wedged : List Controller.Act :=
  [Act.request (.start 0 0)] ++ builds 0 0 0 ++ pumps 1 ++ [Act.request (.ask .cancel 0)] ++
    cancels 1 2 5 1 ++ [Act.runner 3 .ok, .job 1 .ok, .job 1 .ok]

theorem guarded_of_reaches_wedged :
    EachStep (Controller.step ⟨100, 1⟩) Reaches (System.initial 0) wedged ∧
      Always (Controller.step ⟨100, 1⟩) Guarded (System.initial 0) wedged := by
  have h : EachStep (Controller.step ⟨100, 1⟩) Reaches (System.initial 0) wedged := by decide
  exact ⟨h, guarded_of_reaches ⟨100, 1⟩ 0 wedged h⟩

/-- A cancel during a handshake that takes longer than the grace. -/
theorem not_guarded_handshake :
    ¬ ∀ (st : Settings) (clock : Int) (acts : List Controller.Act), 0 < st.cancelGrace →
      Always (Controller.step st) Guarded (System.initial clock) acts := by
  intro h
  obtain ⟨s, hr, hactive, hlive, h0, h1, hlen⟩ : ∃ s, run (Controller.step ⟨100, 1⟩)
      (System.initial 0) ([Act.request (.start 0 0)] ++ builds 0 0 0 ++
        [Act.request (.ask .cancel 0)] ++ cancels 1 2 1 1 ++ [Act.job 1 .ok] ++ pumps 1) = some s ∧
      s.shared.active 0 = some ⟨0, true⟩ ∧ s.shared.runner.shared.live 0 = some 0 ∧
      s.threads[0]? = some (.executing ⟨0, 0, 0, some 0⟩ 0 1) ∧ s.threads[1]? = some .over ∧
      s.threads.length = 2 := ⟨_, rfl, rfl, rfl, rfl, rfl, rfl⟩
  obtain ⟨job, hjob, hwaits⟩ := (h ⟨100, 1⟩ 0 _ (by decide)).final hr 0 _ hactive rfl hlive
  obtain ⟨k, hk⟩ := List.getElem?_of_mem hjob
  obtain ⟨hlt, -⟩ := List.getElem?_eq_some_iff.mp hk
  have hcases : k = 0 ∨ k = 1 := by omega
  rcases hcases with rfl | rfl
  · cases hk.symm.trans h0
    simp [waits] at hwaits
  · cases hk.symm.trans h1
    simp [waits] at hwaits

end AgentWeb.Watchdog
