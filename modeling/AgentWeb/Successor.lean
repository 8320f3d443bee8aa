import AgentWeb.Discipline
import AgentWeb.IdleSweep
import AgentWeb.Naming

namespace AgentWeb.Successor

open Transitions Interleaving Resident ExecLock OneExec Discipline Controller Bookings IdleSweep
open Naming

def handles : Thread → Option (Nat × Nat)
  | .adopt sid t => some (sid, t)
  | .turn x (.aliveCheck t) | .turn x (.readReady t) | .turn x (.ping t) | .turn x (.probe t _)
  | .turn x (.retire t _) | .turn x (.awaitReady t) | .turn x (.register t) | .turn x (.touch t)
  | .turn x (.negotiate t) | .turn x (.awaitHello t) | .turn x (.claim t) | .turn x (.tag t)
  | .turn x (.submit t _) | .turn x (.pump t) => some (x.sandboxId, t)
  | _ => none

def fitted : Outline Registry Thread where
  whole g := ∀ sid, ∀ t ∈ g.transports sid, Of g sid t
  each g th := ∀ sid t, handles th = some (sid, t) → Of g sid t
  two _ _ := True
  symm _ _ h := h

theorem goes_handles {g : Registry} {reply : Reply} {x : Turn} {p p' : Phase} {sid t : Nat}
    (h : Goes g reply x p p') (ht : handles (.turn x p') = some (sid, t)) :
    handles (.turn x p) = some (sid, t) ∨ t ∈ g.transports sid := by
  cases h with
  | found u hu =>
      cases ht
      exact .inr hu
  | closed next => cases next <;> cases ht
  | _ => simp_all [handles]

theorem move_handles {r : Resident.State} {reply : Reply} {g : Registry} {th th' : Thread}
    {sid t : Nat} (hm : Move r.shared reply th g th') (hwhole : fitted.whole r.shared)
    (heach : fitted.each r.shared th) (ht : handles th' = some (sid, t)) : Of g sid t := by
  have hold : handles th = some (sid, t) → Of g sid t := fun h => move_of hm (heach sid t h)
  cases hm with
  | read _ _ hr =>
      cases hr with
      | turn x p p' hgo =>
          rcases goes_handles hgo ht with h | h
          · exact heach sid t h
          · exact hwhole sid t h
      | _ => simp [handles] at ht
  | spawn other =>
      cases ht
      exact of_push ..
  | respawn x =>
      cases ht
      exact of_push ..
  | sweepClose _ _ _ _ _ _ hth => rcases hth with rfl | rfl <;> simp [handles] at ht
  | close x u next p hp =>
      rcases hp with rfl | rfl
      · cases next <;> cases ht
      · cases ht
  | awaitReady x u hs hr p hp =>
      rcases hp with rfl | rfl
      · exact hold ht
      · exact hold ht
  | ready | unsupported | register | touchTurn | hello | helloLost | claim | submit => exact hold ht
  | _ => simp [handles] at ht

theorem handles_of_enters {th : Thread} {sid t : Nat} (h : enters th = some (sid, t)) :
    handles th = some (sid, t) := by
  cases th with
  | adopt => exact h
  | turn x p => cases p <;> first | exact h | simp [enters] at h
  | _ => simp [enters] at h

theorem step_fitted {r r' : Resident.State} {a : Resident.Act} (h : Meets fitted r)
    (hstep : Resident.step r a = some r') : Meets fitted r' := by
  cases a with
  | tick now =>
      cases hstep
      exact ⟨h.whole, h.each, h.two⟩
  | call c =>
      obtain ⟨-, rfl⟩ := step_call hstep
      refine h.arrive h.whole (fun sid t ht => ?_) (fun a _ ha => ⟨ha, trivial⟩)
      cases c <;> simp [Call.thread, handles] at ht
  | advance k reply =>
      obtain ⟨th, g, th', hk, hm, rfl⟩ := step_advance hstep
      have hth := h.each k th hk
      refine h.move hk (fun sid t ht => ?_) (fun sid t => move_handles hm h.whole hth)
        (fun j a _ _ ha _ => ⟨fun sid t ht => move_of hm (ha sid t ht), trivial⟩)
      rcases move_transports hm ht with hold | hnew
      · exact move_of hm (h.whole sid t hold)
      · exact move_of hm (hth sid t (handles_of_enters hnew))

theorem initial_fitted (clock : Int) (named : List Nat) :
    Meets fitted (Resident.State.initial clock named) where
  whole := nofun
  each := by simp [Resident.State.initial]
  two := by simp [Resident.State.initial]

/-- Where the call stands that a job waits for: an `exists`, or the last step of
the watchdog. -/
structure Waits (s : System) : Prop where
  probing : ∀ c sid k, .probing c sid k ∈ s.threads →
    s.shared.runner.threads[k]? = some (.exists sid) ∨
      ∃ a, s.shared.runner.threads[k]? = some (.returned a)
  escalating : ∀ r sid k, .escalating r sid k ∈ s.threads →
    s.shared.runner.threads[k]? = some (.destroyIfRunning sid r) ∨
      (∃ t a, s.shared.runner.threads[k]? = some (.closing t a)) ∨
        ∃ a, s.shared.runner.threads[k]? = some (.returned a)

def Submitted (s : System) : Prop :=
  ∀ sid t b opId, Of s.shared.runner.shared sid t →
    .submit b opId ∈ s.shared.runner.shared.log t →
      ∃ row, s.shared.runs[b]? = some row ∧
        s.shared.conversationOf sid = some row.conversationId

def Fallen (s : System) : Prop :=
  ∀ r sid k t a, .escalating r sid k ∈ s.threads →
    s.shared.runner.threads[k]? = some (.closing (some t) a) →
      Of s.shared.runner.shared sid t ∧ sid ∉ s.shared.runner.shared.sandboxes ∧
        (∀ job ∈ s.threads, ∀ b, picks s.shared job = some (b, sid) → b ≤ r) ∧
          ∀ b opId, .submit b opId ∈ s.shared.runner.shared.log t → b ≤ r

def awaits : Job → Option (Nat × Thread)
  | .probing _ sid k => some (k, .exists sid)
  | .escalating r sid k => some (k, .destroyIfRunning sid r)
  | _ => none

theorem moves_awaits {st : Settings} {g g' : Backend} {o : Outcome} {job job' : Job} {k : Nat}
    {th : Thread} (hm : Moves st g o job g' job') (ha : awaits job' = some (k, th)) :
    g'.runner.threads[k]? = some th := by
  cases hm with
  | pass _ _ hp => cases hp <;> cases ha
  | call _ call f g' hc hg =>
      obtain ⟨-, rfl⟩ := call_eq_some hg
      cases hc with
      | «exists» | destroyIfRunning =>
          cases ha
          exact List.getElem?_concat_length
      | _ => cases ha
  | _ => cases ha

theorem step_waits {st : Settings} {s s' : System} {a : Controller.Act} (h : Waits s)
    (hstep : Controller.step st s a = some s') : Waits s' := by
  rcases step_cases hstep with ⟨q, rfl⟩ | ⟨k, o, job, g, job', -, hk, hm, rfl⟩ | ⟨act, r, -, hr, rfl⟩
  · refine ⟨fun c sid i hmem => ?_, fun r sid i hmem => ?_⟩
    · rcases List.mem_append.mp hmem with hold | hnew
      · exact h.probing c sid i hold
      · cases q <;> simp [Request.job] at hnew
    · rcases List.mem_append.mp hmem with hold | hnew
      · exact h.escalating r sid i hold
      · cases q <;> simp [Request.job] at hnew
  · obtain ⟨hkeep, -, -⟩ := moves_still hm
    refine ⟨fun c sid i hmem => ?_, fun r sid i hmem => ?_⟩
    · rcases List.mem_or_eq_of_mem_set hmem with hold | rfl
      · exact (h.probing c sid i hold).imp (hkeep i _) (Exists.imp fun a => hkeep i _)
      · exact .inl (moves_awaits hm rfl)
    · rcases List.mem_or_eq_of_mem_set hmem with hold | rfl
      · exact (h.escalating r sid i hold).imp (hkeep i _) (Or.imp
          (Exists.imp fun t => Exists.imp fun a => hkeep i _) (Exists.imp fun a => hkeep i _))
      · exact .inl (moves_awaits hm rfl)
  · refine ⟨fun c sid i hmem => ?_, fun run sid i hmem => ?_⟩
    · rcases h.probing c sid i hmem with hi | ⟨a, hi⟩
      · rcases step_thread hr hi with hsame | ⟨reply, g, th', -, hmove, -, hi'⟩
        · exact .inl hsame
        · cases hmove with
          | read _ _ hread => cases hread <;> exact .inr ⟨_, hi'⟩
      · rcases step_thread hr hi with hsame | ⟨reply, g, th', -, hmove, -, hi'⟩
        · exact .inr ⟨a, hsame⟩
        · cases hmove with
          | read _ _ hread => cases hread
    · rcases h.escalating run sid i hmem with hi | ⟨t, a, hi⟩ | ⟨a, hi⟩
      · rcases step_thread hr hi with hsame | ⟨reply, g, th', -, hmove, -, hi'⟩
        · exact .inl hsame
        · cases hmove with
          | read _ _ hread =>
              cases hread
              exact .inr (.inr ⟨_, hi'⟩)
          | fell => exact .inr (.inl ⟨_, _, hi'⟩)
      · rcases step_thread hr hi with hsame | ⟨reply, g, th', -, hmove, -, hi'⟩
        · exact .inr (.inl ⟨t, a, hsame⟩)
        · cases hmove with
          | read _ _ hread =>
              cases hread
              exact .inr (.inr ⟨_, hi'⟩)
          | closing => exact .inr (.inr ⟨_, hi'⟩)
      · rcases step_thread hr hi with hsame | ⟨reply, g, th', -, hmove, -, hi'⟩
        · exact .inr (.inr ⟨a, hsame⟩)
        · cases hmove with
          | read _ _ hread => cases hread

theorem of_unique {g : Registry} {sid other t : Nat} (h : Of g sid t) (h' : Of g other t) :
    sid = other := by
  by_contra hne
  exact h.ne h' hne rfl

theorem of_of_mem_log {g : Registry} {e : Entry} {t : Nat} (h : e ∈ g.log t) : ∃ sid, Of g sid t := by
  rw [Registry.log] at h
  cases hx : g.spawned[t]? with
  | none => simp [hx] at h
  | some x => exact ⟨x.sandboxId, x, hx, rfl⟩

theorem move_submits {r : Resident.State} {reply : Reply} {g : Registry} {th th' : Thread}
    {t b : Nat} {opId : Bool} (hm : Move r.shared reply th g th')
    (h : .submit b opId ∈ g.log t) :
    .submit b opId ∈ r.shared.log t ∨ ∃ x, th = .turn x (.submit t opId) ∧ x.runId = b := by
  have hwrite : ∀ (u : Nat) (e : Entry), .submit b opId ∈ (r.shared.write u e).log t →
      .submit b opId ∈ r.shared.log t ∨ t = u ∧ e = .submit b opId := by
    intro u e he
    rw [log_write] at he
    split at he
    next hu =>
      rcases mem_append_singleton.mp he with hold | hnew
      · exact .inl hold
      · exact .inr ⟨hu.1, hnew.symm⟩
    next => exact .inl he
  cases hm with
  | touch | relayTouch | touchTurn =>
      rw [Registry.touch_frame] at h
      exact .inl h
  | retire =>
      rw [Registry.retire_frame] at h
      exact .inl h
  | spawn | respawn =>
      rw [log_spawnTransport] at h
      exact .inl h
  | sweepClose | closing | close =>
      rw [log_close] at h
      exact .inl h
  | relaySend sid u op => exact (hwrite u (.relay op) h).imp id fun he => by simp at he
  | ready x u hs => exact (hwrite u (.ready hs) h).imp id fun he => by simp at he
  | unsupported x u hs => exact (hwrite u (.ready hs) h).imp id fun he => by simp at he
  | awaitReady x u hs => exact (hwrite u (.ready hs) h).imp id fun he => by simp at he
  | hello x u hs => exact (hwrite u .hello h).imp id fun he => by simp at he
  | helloLost x u hs => exact (hwrite u .helloLost h).imp id fun he => by simp at he
  | submit x u op =>
      refine (hwrite u (.submit x.runId op) h).imp id fun he => ?_
      obtain ⟨rfl, he⟩ := he
      cases he
      exact ⟨x, rfl, rfl⟩
  | _ => exact .inl h

theorem step_of {r r' : Resident.State} {a : Resident.Act} {sid t : Nat} (h : Of r.shared sid t)
    (hstep : Resident.step r a = some r') : Of r'.shared sid t := by
  cases a with
  | tick now =>
      cases hstep
      exact h
  | call c =>
      obtain ⟨-, rfl⟩ := step_call hstep
      exact h
  | advance m reply =>
      obtain ⟨th, g, th', -, hm, rfl⟩ := step_advance hstep
      exact move_of hm h

theorem step_submits {r r' : Resident.State} {a : Resident.Act} {t b : Nat} {opId : Bool}
    (hstep : Resident.step r a = some r') (h : .submit b opId ∈ r'.shared.log t) :
    .submit b opId ∈ r.shared.log t ∨ ∃ (k : Nat) (x : Turn),
      r.threads[k]? = some (.turn x (.submit t opId)) ∧ x.runId = b := by
  cases a with
  | tick now =>
      cases hstep
      exact .inl h
  | call c =>
      obtain ⟨-, rfl⟩ := step_call hstep
      exact .inl h
  | advance m reply =>
      obtain ⟨th, g, th', hk, hm, rfl⟩ := step_advance hstep
      exact (move_submits hm h).imp id fun ⟨x, hx, hb⟩ => ⟨m, x, hx ▸ hk, hb⟩

theorem exec_booked {s : System} (h : Sound s) {k : Nat} {th : Thread} {sid r : Nat}
    (hk : s.shared.runner.threads[k]? = some th) (he : execOf th = some (sid, r)) :
    ∃ job ∈ s.threads, picks s.shared job = some (r, sid) ∧ ∃ row, s.shared.runs[r]? = some row ∧
      row.status = .running ∧ s.shared.conversationOf sid = some row.conversationId := by
  obtain ⟨job, hjob, hex⟩ := h.linked k th (sid, r) hk he
  obtain ⟨m, hm⟩ := List.getElem?_of_mem hjob
  cases job with
  | executing c other j =>
      cases hex
      obtain ⟨⟨row, hrow, hc, hs⟩, hhome⟩ := h.booked.each m _ hm c.runId c.conversationId rfl
      exact ⟨_, hjob, rfl, row, hrow, hs rfl, hc ▸ hhome sid (.inl rfl)⟩
  | _ => simp [executes] at hex

theorem step_submitted {st : Settings} {s s' : System} {a : Controller.Act} (hs : Sound s)
    (hfit : Meets fitted s.shared.runner) (h : Submitted s)
    (hstep : Controller.step st s a = some s') : Submitted s' := by
  rcases step_cases hstep with ⟨q, rfl⟩ | ⟨k, o, job, g, job', -, hk, hm, rfl⟩ | ⟨act, r, -, hr, rfl⟩
  · exact h
  · obtain ⟨-, -, named, hshared⟩ := moves_still hm
    intro sid t b opId hof hmem
    rw [hshared] at hof hmem
    obtain ⟨row, hrow, hc⟩ := h sid t b opId hof hmem
    obtain ⟨row', hrow', hc'⟩ := moves_rows hm hrow
    exact ⟨row', hrow', hc' ▸ moves_home hs.booked.whole hm hc⟩
  · intro sid t b opId hof hmem
    rcases step_submits hr hmem with hold | ⟨k, x, hk, rfl⟩
    · obtain ⟨other, hother⟩ := of_of_mem_log hold
      cases of_unique hof (step_of hother hr)
      exact h sid t b opId hother hold
    · cases of_unique hof (step_of (hfit.each k _ hk _ _ rfl) hr)
      obtain ⟨-, -, -, row, hrow, -, hc⟩ := exec_booked hs hk rfl
      exact ⟨row, hrow, hc⟩

theorem picks_spec {g : Backend} {job : Job} {b sid : Nat} (h : picks g job = some (b, sid)) :
    ∃ conversation, runOf job = some (b, conversation) ∧ sandboxOf job = some sid := by
  cases job with
  | probing c other k =>
      simp only [picks] at h
      split at h
      · cases h
        exact ⟨c.conversationId, rfl, rfl⟩
      · simp at h
  | _ => simp_all [picks, runOf, claimOf, sandboxOf]

theorem moves_answer {st : Settings} {g g' : Backend} {o : Outcome} {job job' : Job}
    (h : Moves st g o job g' job') (k : Nat) : g'.answer k = g.answer k := by
  obtain ⟨hkeep, hback, -⟩ := moves_still h
  cases ha : g'.answer k with
  | some a =>
      rcases hback k _ (answer_eq_some.mp ha) with hold | ⟨c, hc⟩
      · exact (answer_eq_some.mpr hold).symm
      · cases c <;> simp [Call.thread] at hc
  | none =>
      cases hb : g.answer k with
      | none => rfl
      | some b =>
          rw [answer_eq_some.mpr (hkeep k _ (answer_eq_some.mp hb))] at ha
          simp at ha

theorem picks_congr {g g' : Backend} (h : ∀ k, g'.answer k = g.answer k) (job : Job) :
    picks g' job = picks g job := by
  cases job with
  | probing c sid k => simp only [picks, h]
  | _ => rfl

theorem moves_picks {st : Settings} {g g' : Backend} {o : Outcome} {job job' : Job} {b sid : Nat}
    (hm : Moves st g o job g' job') (h : picks g' job' = some (b, sid)) :
    picks g job = some (b, sid) ∨ sid ∉ g.runner.shared.named := by
  rw [picks_congr (moves_answer hm)] at h
  cases hm with
  | pass job job' hp =>
      refine .inl ?_
      cases hp <;> simp_all [picks]
  | call job c f g' hc hg =>
      refine .inl ?_
      cases hc with
      | «exists» c row hrow =>
          have hnone : g.answer g.next = none := by
            rw [Backend.answer, Backend.next, List.getElem?_eq_none (Nat.le_refl _)]
          simp [picks, hnone] at h
      | touch c other k ha => simp_all [picks]
      | _ => simp_all [picks]
  | create c retired new g' hg =>
      obtain ⟨hallowed, -⟩ := call_eq_some hg
      cases h
      exact .inr (by simpa [Call.allowed] using hallowed)
  | _ => exact .inl (by simp_all [picks])

theorem step_picks {s : System} {r : Resident.State} {a : Resident.Act} {job : Job} {b sid : Nat}
    (hwaits : Waits s) (hr : Resident.step s.shared.runner a = some r) (hjob : job ∈ s.threads)
    (h : picks { s.shared with runner := r } job = some (b, sid)) :
    picks s.shared job = some (b, sid) ∨ sid ∈ s.shared.runner.shared.sandboxes ∧
      ∃ k reply, a = .advance k reply ∧ s.shared.runner.threads[k]? = some (.exists sid) := by
  cases job with
  | probing c other k =>
      simp only [picks] at h
      split at h
      next ha =>
        cases h
        have hk : r.threads[k]? = some (.returned .done) := answer_eq_some.mp ha
        rcases hwaits.probing c sid k hjob with hi | ⟨answer, hi⟩
        · rcases step_thread hr hi with hsame | ⟨reply, g, th', he, hmove, -, hi'⟩
          · cases hk.symm.trans hsame
          · cases hk.symm.trans hi'
            cases hmove with
            | read _ _ hread =>
                cases hread with
                | here _ hin => exact .inr ⟨hin, k, reply, he, hi⟩
        · rcases step_thread hr hi with hsame | ⟨reply, g, th', -, hmove, -, -⟩
          · cases hk.symm.trans hsame
            have hold : s.shared.answer k = some .done := answer_eq_some.mpr hi
            exact .inl (by simp [picks, hold])
          · cases hmove with
            | read _ _ hread => cases hread
      next => simp at h
  | _ => exact .inl h

theorem slot_booked {s : System} (h : Sound s) {sid r : Nat}
    (hlive : s.shared.runner.shared.live sid = some r) :
    ∃ row, s.shared.runs[r]? = some row ∧ row.status = .running ∧
      s.shared.conversationOf sid = some row.conversationId := by
  obtain ⟨th, hth, x, hx, rfl, rfl⟩ := h.owned sid r hlive
  obtain ⟨k, hk⟩ := List.getElem?_of_mem hth
  obtain ⟨-, -, -, hrow⟩ := exec_booked h hk (execOf_of_claims hx)
  exact hrow

theorem le_of_slot {s : System} (h : Sound s) {sid r b : Nat} {row : RunRow}
    (hlive : s.shared.runner.shared.live sid = some r) (hrow : s.shared.runs[b]? = some row)
    (hc : s.shared.conversationOf sid = some row.conversationId) : b ≤ r := by
  obtain ⟨last, hlast, hstatus, hc'⟩ := slot_booked h hlive
  exact h.booked.whole.1 r b last row hlast hrow hstatus (Option.some.inj (hc'.symm.trans hc))

theorem pick_le {s : System} (h : Sound s) {sid r b : Nat} {job : Job}
    (hlive : s.shared.runner.shared.live sid = some r) (hjob : job ∈ s.threads)
    (hb : picks s.shared job = some (b, sid)) : b ≤ r := by
  obtain ⟨conversation, hrun, hsid⟩ := picks_spec hb
  obtain ⟨m, hm⟩ := List.getElem?_of_mem hjob
  obtain ⟨⟨row, hrow, hc, -⟩, hhome⟩ := h.booked.each m _ hm b conversation hrun
  exact le_of_slot h hlive hrow (hc ▸ hhome sid (.inl hsid))

theorem step_fallen {st : Settings} {s s' : System} {a : Controller.Act} (hs : Sound s)
    (hfit : Meets fitted s.shared.runner) (hacq : Acquainted s) (hwaits : Waits s)
    (hsub : Submitted s) (h : Fallen s) (hstep : Controller.step st s a = some s') : Fallen s' := by
  rcases step_cases hstep with ⟨q, rfl⟩ | ⟨k, o, job, g, job', -, hk, hm, rfl⟩ | ⟨act, r', -, hr, rfl⟩
  · intro r sid k t a hmem hclosing
    rcases List.mem_append.mp hmem with hold | hnew
    · obtain ⟨hof, hgone, hpick, hlog⟩ := h r sid k t a hold hclosing
      refine ⟨hof, hgone, fun job hjob b hb => ?_, hlog⟩
      rcases mem_append_singleton.mp hjob with hj | rfl
      · exact hpick job hj b hb
      · cases q <;> simp [Request.job, picks] at hb
    · cases q <;> simp [Request.job] at hnew
  · obtain ⟨-, hback, named, hshared⟩ := moves_still hm
    intro r sid i t a hmem hclosing
    have hold : .escalating r sid i ∈ s.threads := by
      rcases List.mem_or_eq_of_mem_set hmem with hold | rfl
      · exact hold
      · cases hclosing.symm.trans (moves_awaits hm rfl)
    have hclosing' : s.shared.runner.threads[i]? = some (.closing (some t) a) := by
      rcases hback i _ hclosing with hc | ⟨c, hc⟩
      · exact hc
      · cases c <;> simp [Call.thread] at hc
    obtain ⟨hof, hgone, hpick, hlog⟩ := h r sid i t a hold hclosing'
    rw [hshared]
    refine ⟨hof, hgone, fun b hb run hrun => ?_, hlog⟩
    rcases List.mem_or_eq_of_mem_set hb with hb | rfl
    · exact hpick b hb run (picks_congr (moves_answer hm) b ▸ hrun)
    · rcases moves_picks hm hrun with hold' | hfresh
      · exact hpick job (List.mem_of_getElem? hk) run hold'
      · exact absurd (hacq.jobs _ hold sid (by simp [knownTo])).1 hfresh
  · intro r sid i t a hmem hclosing
    have hknown : Known s.shared.runner sid := hacq.jobs _ hmem sid (by simp [knownTo])
    rcases hwaits.escalating r sid i hmem with hi | ⟨t', a', hi⟩ | ⟨a', hi⟩
    · rcases step_thread hr hi with hsame | ⟨reply, g, th', hact, hmove, rfl, hi'⟩
      · cases hclosing.symm.trans hsame
      · cases hmove with
        | read _ _ hread =>
            cases hread
            cases hclosing.symm.trans hi'
        | fell _ _ hin hlive =>
            obtain ⟨ht, -⟩ := Thread.closing.inj (Option.some.inj (hi'.symm.trans hclosing))
            have hof : Of s.shared.runner.shared sid t := hfit.whole sid t ht
            refine ⟨hof, fun hmem => (detach_sandboxes.mp hmem).2 rfl, fun job hjob b hb => ?_,
              fun b opId hlog => ?_⟩
            · rcases step_picks hwaits hr hjob hb with hold | ⟨-, m, _, he, hm⟩
              · exact pick_le hs hlive hjob hold
              · cases hact.symm.trans he
                cases hi.symm.trans hm
            · obtain ⟨row, hrow, hc⟩ := hsub sid t b opId hof hlog
              exact le_of_slot hs hlive hrow hc
    · rcases step_thread hr hi with hsame | ⟨reply, g, th', -, hmove, -, hi'⟩
      · cases hclosing.symm.trans hsame
        obtain ⟨hof, hgone, hpick, hlog⟩ := h r sid i t a hmem hi
        refine ⟨step_of hof hr, step_absent hknown hgone hr, fun job hjob b hb => ?_,
          fun b opId hb => ?_⟩
        · rcases step_picks hwaits hr hjob hb with hold | ⟨hin, -⟩
          · exact hpick job hjob b hold
          · exact absurd hin hgone
        · rcases step_submits hr hb with hold | ⟨k, x, hk, rfl⟩
          · exact hlog b opId hold
          · obtain rfl := of_unique (hfit.each k _ hk _ _ rfl) hof
            obtain ⟨job, hjob, hpicks, -⟩ := exec_booked hs hk rfl
            exact hpick job hjob x.runId hpicks
      · cases hmove with
        | read _ _ hread =>
            cases hread
            cases hclosing.symm.trans hi'
        | closing => cases hclosing.symm.trans hi'
    · rcases step_thread hr hi with hsame | ⟨reply, g, th', -, hmove, -, hi'⟩
      · cases hclosing.symm.trans hsame
      · cases hmove with
        | read _ _ hread => cases hread

/-- The watchdog of a run detaches a sandbox, and goes on to close a transport,
only while the run is in the live slot, and the transport is the one of the
sandbox. -/
def OnlyOwner (st : Settings) (s : System) : Controller.Act → Prop
  | .runner k reply => ∀ r sid, .escalating r sid k ∈ s.threads →
      ∀ s', Controller.step st s (.runner k reply) = some s' →
        s'.shared.runner.shared.sandboxes ≠ s.shared.runner.shared.sandboxes ∨
          (∃ t a, s'.shared.runner.threads[k]? = some (.closing t a)) →
            s.shared.runner.shared.live sid = some r ∧
              ∀ t a, s'.shared.runner.threads[k]? = some (.closing t a) →
                t = s.shared.runner.shared.transports sid
  | _ => True

/-- When the watchdog of a run is about to close a transport, no later run has
submitted on it or has its sandbox. -/
def NoSuccessor (s : System) : Prop :=
  ∀ r sid k t a, .escalating r sid k ∈ s.threads →
    s.shared.runner.threads[k]? = some (.closing (some t) a) →
      (∀ b opId, .submit b opId ∈ s.shared.runner.shared.log t → b ≤ r) ∧
        ∀ job ∈ s.threads, ∀ b, picks s.shared job = some (b, sid) → b ≤ r

theorem onlyOwner_of_waits {st : Settings} {s : System} (h : Waits s) (a : Controller.Act) :
    OnlyOwner st s a := by
  cases a with
  | runner k reply =>
      intro r sid hmem s' hstep hchange
      obtain ⟨g, hdrive, rfl⟩ := Option.map_eq_some_iff.mp hstep
      obtain ⟨r', hr, rfl⟩ := Option.map_eq_some_iff.mp hdrive
      obtain ⟨th, g, th', hk, hmove, rfl⟩ := step_advance hr
      have hself : (s.shared.runner.threads.set k th')[k]? = some th' :=
        List.getElem?_set_self (List.getElem?_eq_some_iff.mp hk).choose
      rcases h.escalating r sid k hmem with hi | ⟨t, a, hi⟩ | ⟨a, hi⟩
      · cases hk.symm.trans hi
        cases hmove with
        | read _ _ hread =>
            cases hread
            simp [hself] at hchange
        | fell _ _ hin hlive =>
            refine ⟨hlive, fun t a ht => ?_⟩
            exact (Thread.closing.inj (Option.some.inj (hself.symm.trans ht))).1.symm
      · cases hk.symm.trans hi
        cases hmove with
        | read _ _ hread =>
            cases hread
            simp [hself] at hchange
        | closing => simp [hself, Registry.close] at hchange
      · cases hk.symm.trans hi
        cases hmove with
        | read _ _ hread => cases hread
  | _ => trivial

structure Placed (s : System) : Prop where
  sound : Sound s
  fitted : Meets fitted s.shared.runner
  acquainted : Acquainted s
  waits : Waits s
  submitted : Submitted s
  fallen : Fallen s

theorem step_placed {st : Settings} {s s' : System} {a : Controller.Act} (h : Placed s)
    (hstep : Controller.step st s a = some s') : Placed s' where
  sound := step_sound h.sound hstep
  fitted := step_runner_invariant (fun _ _ _ => step_fitted) h.fitted hstep
  acquainted := step_acquainted h.sound.reserved h.acquainted hstep
  waits := step_waits h.waits hstep
  submitted := step_submitted h.sound h.fitted h.submitted hstep
  fallen := step_fallen h.sound h.fitted h.acquainted h.waits h.submitted h.fallen hstep

theorem initial_placed (clock : Int) : Placed (System.initial clock) where
  sound := initial_sound clock
  fitted := initial_fitted clock []
  acquainted := initial_acquainted clock
  waits := by constructor <;> simp [System.initial]
  submitted := nofun
  fallen := by simp [Fallen, System.initial]

/-- The watchdog of a cancelled run never hits the run that comes after it. -/
theorem escalation_spares_successor (st : Settings) (clock : Int) (acts : List Controller.Act) :
    EachStep (Controller.step st) (OnlyOwner st) (System.initial clock) acts ∧
      Always (Controller.step st) NoSuccessor (System.initial clock) acts := by
  have hstep : ∀ s a s', Placed s → Controller.step st s a = some s' → Placed s' :=
    fun _ _ _ => step_placed
  refine ⟨eachStep_of_invariant hstep (fun s a h => onlyOwner_of_waits h.waits a)
    (initial_placed clock), always_of_invariant (fun s h => ?_) hstep (initial_placed clock)⟩
  intro r sid k t a hmem hclosing
  obtain ⟨-, -, hpick, hlog⟩ := h.fallen r sid k t a hmem hclosing
  exact ⟨hlog, hpick⟩

end AgentWeb.Successor
