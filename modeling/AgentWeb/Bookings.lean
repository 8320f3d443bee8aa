import AgentWeb.Controller

namespace AgentWeb.Bookings

open Transitions Interleaving Resident ExecLock OneExec Controller

def claimOf : Job → Option Claim
  | .ensuring c | .probing c _ _ | .touching c _ _ | .retiring c _ | .making c _
  | .creating c _ _ _ | .flushing c _ _ | .committing c _ _ | .registering c _ | .enrolling c _
  | .launching c _ | .undoing c _ | .destroying c _ | .failing c | .raised c | .ready c _
  | .executing c _ _ | .gone c _ | .finishing c _ | .closing c _ | .leaving c _ | .ended c _ =>
      some c
  | _ => none

def runOf (job : Job) : Option (Nat × Nat) := (claimOf job).map fun c => (c.runId, c.conversationId)

def madeOf (job : Job) : Option Nat := (claimOf job).bind (·.made)

def unfinished : Job → Bool
  | .raised _ | .closing _ _ | .leaving _ _ | .ended _ _ => false
  | job => (claimOf job).isSome

/-- The sandbox of a run, from its row or from `create`. -/
def sandboxOf : Job → Option Nat
  | .probing _ sid _ | .touching _ sid _ | .creating _ _ sid _ | .flushing _ _ sid
  | .committing _ _ sid | .registering _ sid | .enrolling _ sid | .launching _ sid | .ready _ sid
  | .executing _ sid _ | .gone _ sid | .finishing _ sid | .closing _ sid | .leaving _ sid
  | .ended _ sid => some sid
  | _ => none

def Latest (runs : List RunRow) : Prop :=
  ∀ (i j : Nat) (a b : RunRow), runs[i]? = some a → runs[j]? = some b → a.status = .running →
    a.conversationId = b.conversationId → j ≤ i

def booked : Outline Backend Job where
  whole g := Latest g.runs ∧
    (∀ row ∈ g.sandboxes, g.conversationOf row.id = some row.conversationId) ∧
    ∀ sid conversation, g.conversationOf sid = some conversation → sid ∈ g.runner.shared.named
  each g job := ∀ r conversation, runOf job = some (r, conversation) →
    (∃ row, g.runs[r]? = some row ∧ row.conversationId = conversation ∧
      (unfinished job = true → row.status = .running)) ∧
    ∀ sid, sandboxOf job = some sid ∨ madeOf job = some sid →
      g.conversationOf sid = some conversation
  two a b := ∀ r conversation r' conversation', runOf a = some (r, conversation) →
    runOf b = some (r', conversation') → r ≠ r'
  symm _ _ h r conversation r' conversation' ha hb := Ne.symm (h r' conversation' r conversation hb ha)

theorem step_named {s s' : Resident.State} {a : Resident.Act} (h : Resident.step s a = some s')
    {sid : Nat} (hsid : sid ∈ s.shared.named) : sid ∈ s'.shared.named := by
  cases a with
  | tick now =>
      cases h
      exact hsid
  | call c =>
      obtain ⟨-, rfl⟩ := step_call h
      exact List.mem_append_left _ hsid
  | advance k reply =>
      obtain ⟨th, g, th', -, hm, rfl⟩ := step_advance h
      rwa [move_named hm]

theorem passes_keep {g : Backend} {o : Outcome} {job job' : Job} (h : Passes g o job job') :
    runOf job' = runOf job ∧ (unfinished job' = true → unfinished job = true) ∧
      ∀ sid, sandboxOf job' = some sid ∨ madeOf job' = some sid →
        sandboxOf job = some sid ∨ madeOf job = some sid := by
  cases h <;> simp +contextual [runOf, madeOf, claimOf, unfinished, sandboxOf]

theorem calls_keep {st : Settings} {g : Backend} {job : Job} {c : Call} {f : Nat → Job}
    (h : Calls st g job c f) (k : Nat) :
    runOf (f k) = runOf job ∧ (unfinished (f k) = true → unfinished job = true) ∧
      ∀ sid, sandboxOf (f k) = some sid ∨ madeOf (f k) = some sid →
        (sandboxOf job = some sid ∨ madeOf job = some sid) ∨ ∃ row ∈ g.sandboxes, row.id = sid ∧
          ∀ r conversation, runOf job = some (r, conversation) →
            row.conversationId = conversation := by
  cases h with
  | «exists» c row hrow =>
      simp only [Backend.current, List.mem_filter, Bool.and_eq_true, decide_eq_true_eq] at hrow
      obtain ⟨hmem, ⟨-, hconv⟩, -⟩ := hrow
      refine ⟨rfl, fun _ => rfl, fun sid hsid => ?_⟩
      rcases hsid with hsid | hsid
      · cases hsid
        refine .inr ⟨row, hmem, rfl, fun r conversation hr => ?_⟩
        cases hr
        exact hconv
      · exact .inl (.inr hsid)
  | _ => exact ⟨rfl, id, fun sid hsid => .inl hsid⟩

theorem booked_frame {s : System} {k : Nat} {job job' : Job} {g : Backend} (h : Meets booked s)
    (hk : s.threads[k]? = some job) (hruns : g.runs = s.shared.runs)
    (hconv : g.conversationOf = s.shared.conversationOf)
    (hrows : ∀ row ∈ g.sandboxes, ∃ old ∈ s.shared.sandboxes, old.id = row.id ∧
      old.conversationId = row.conversationId)
    (hnamed : ∀ sid ∈ s.shared.runner.shared.named, sid ∈ g.runner.shared.named)
    (hrun : runOf job' = runOf job) (hunf : unfinished job' = true → unfinished job = true)
    (hsand : ∀ sid, sandboxOf job' = some sid ∨ madeOf job' = some sid →
      (sandboxOf job = some sid ∨ madeOf job = some sid) ∨
        ∃ row ∈ s.shared.sandboxes, row.id = sid ∧ ∀ r conversation,
          runOf job = some (r, conversation) → row.conversationId = conversation) :
    Meets booked ⟨g, s.threads.set k job'⟩ := by
  obtain ⟨hlatest, hhomes, hmade⟩ := h.whole
  refine h.move hk ⟨?_, fun row hrow => ?_, fun sid conversation hsid => ?_⟩
    (fun r conversation hr => ⟨?_, fun sid hsid => ?_⟩) (fun j a _ _ ha htwo => ⟨?_, ?_⟩)
  · rwa [hruns]
  · obtain ⟨old, hold, hid, hc⟩ := hrows row hrow
    rw [hconv, ← hid, ← hc]
    exact hhomes old hold
  · rw [hconv] at hsid
    exact hnamed sid (hmade sid conversation hsid)
  · rw [hrun] at hr
    obtain ⟨row, hrow, hc, hstatus⟩ := (h.each k job hk r conversation hr).1
    rw [hruns]
    exact ⟨row, hrow, hc, fun hu => hstatus (hunf hu)⟩
  · rw [hrun] at hr
    rw [hconv]
    rcases hsand sid hsid with hold | ⟨row, hrow, rfl, hc⟩
    · exact (h.each k job hk r conversation hr).2 sid hold
    · rw [← hc r conversation hr]
      exact hhomes row hrow
  · intro r conversation hr
    rw [hruns, hconv]
    exact ha r conversation hr
  · exact fun r conversation r' conversation' hr => htwo r conversation r' conversation' (hrun ▸ hr)

theorem booked_finish {s : System} {k : Nat} {job job' : Job} {c : Claim} {v : Verdict}
    {active : Nat → Option ActiveRun} (h : Meets booked s) (hk : s.threads[k]? = some job)
    (hclaim : claimOf job = some c) (hclaim' : claimOf job' = some c)
    (hunf : unfinished job' = false) (hsand : ∀ sid, sandboxOf job' = some sid →
      sandboxOf job = some sid) :
    Meets booked ⟨{ s.shared.finish c.runId v with active := active }, s.threads.set k job'⟩ := by
  obtain ⟨hlatest, hhomes, hmade⟩ := h.whole
  have hrun : runOf job' = runOf job := by rw [runOf, runOf, hclaim, hclaim']
  have hget : ∀ (r : Nat) (row : RunRow), (s.shared.finish c.runId v).runs[r]? = some row →
      ∃ old, s.shared.runs[r]? = some old ∧ old.conversationId = row.conversationId ∧
        (row.status = .running → old.status = .running) := by
    intro r row hr
    simp only [Backend.finish, List.getElem?_modify, Option.map_eq_map, Option.map_eq_some_iff] at hr
    obtain ⟨old, hold, rfl⟩ := hr
    refine ⟨old, hold, ?_, ?_⟩ <;> by_cases he : c.runId = r <;> simp [he]
  have hkeep : ∀ (r : Nat) (row : RunRow), s.shared.runs[r]? = some row → ∃ new,
      (s.shared.finish c.runId v).runs[r]? = some new ∧ new.conversationId = row.conversationId ∧
        (r ≠ c.runId → new = row) := by
    intro r row hr
    simp only [Backend.finish, List.getElem?_modify, hr]
    by_cases he : c.runId = r
    · simp [he]
    · simp [he]
  refine h.move hk ⟨?_, hhomes, hmade⟩ (fun r conversation hr => ⟨?_, fun sid hsid => ?_⟩)
    (fun j a _ _ ha htwo => ⟨fun r conversation hr => ⟨?_, (ha r conversation hr).2⟩, ?_⟩)
  · intro i j a b ha hb hstatus hc
    obtain ⟨a', ha', hca, hsa⟩ := hget i a ha
    obtain ⟨b', hb', hcb, -⟩ := hget j b hb
    exact hlatest i j a' b' ha' hb' (hsa hstatus) (by rw [hca, hcb, hc])
  · rw [hrun] at hr
    obtain ⟨row, hrow, hc, -⟩ := (h.each k job hk r conversation hr).1
    obtain ⟨new, hnew, hcn, -⟩ := hkeep r row hrow
    exact ⟨new, hnew, hcn.trans hc, by simp [hunf]⟩
  · rw [hrun] at hr
    refine (h.each k job hk r conversation hr).2 sid (hsid.imp (hsand sid) ?_)
    rw [madeOf, madeOf, hclaim, hclaim']
    exact id
  · obtain ⟨row, hrow, hc, hstatus⟩ := (ha r conversation hr).1
    obtain ⟨new, hnew, -, hsame⟩ := hkeep r row hrow
    have hne : r ≠ c.runId :=
      (htwo c.runId c.conversationId r conversation (by rw [runOf, hclaim]; rfl) hr).symm
    rw [hsame hne] at hnew
    exact ⟨row, hnew, hc, hstatus⟩
  · exact fun r conversation r' conversation' hr => htwo r conversation r' conversation' (hrun ▸ hr)

theorem not_busy {g : Backend} {conversation : Nat} (h : g.busy conversation = false) {i : Nat}
    {row : RunRow} (hi : g.runs[i]? = some row) (hc : row.conversationId = conversation) :
    row.status ≠ .running := by
  intro hs
  have := List.any_eq_false.mp h row (List.mem_of_getElem? hi)
  simp [hc, hs] at this

theorem moves_rows {st : Settings} {g g' : Backend} {o : Outcome} {job job' : Job}
    (h : Moves st g o job g' job') {r : Nat} {row : RunRow} (hr : g.runs[r]? = some row) :
    ∃ row', g'.runs[r]? = some row' ∧ row'.conversationId = row.conversationId := by
  have hfinish : ∀ (r' : Nat) (v : Verdict), ∃ row', (g.finish r' v).runs[r]? = some row' ∧
      row'.conversationId = row.conversationId := by
    intro r' v
    simp only [Backend.finish, List.getElem?_modify, hr]
    by_cases he : r' = r <;> simp [he]
  cases h with
  | call _ c _ g' _ hg =>
      obtain ⟨-, rfl⟩ := call_eq_some hg
      exact ⟨row, hr, rfl⟩
  | create _ _ sid g' hg =>
      obtain ⟨-, rfl⟩ := call_eq_some hg
      exact ⟨row, hr, rfl⟩
  | claim =>
      refine ⟨row, ?_, rfl⟩
      exact (List.getElem?_append_left (List.getElem?_eq_some_iff.mp hr).choose).trans hr
  | fail c => exact hfinish c.runId .error
  | finish c _ v => exact hfinish c.runId v
  | _ => exact ⟨row, hr, rfl⟩

theorem moves_home {st : Settings} {g g' : Backend} {o : Outcome} {job job' : Job}
    (hwhole : booked.whole g) (h : Moves st g o job g' job') {sid conversation : Nat}
    (hc : g.conversationOf sid = some conversation) :
    g'.conversationOf sid = some conversation := by
  cases h with
  | call _ c _ g' _ hg =>
      obtain ⟨-, rfl⟩ := call_eq_some hg
      exact hc
  | create _ _ new g' hg =>
      obtain ⟨hallowed, rfl⟩ := call_eq_some hg
      have hfresh : new ∉ g.runner.shared.named := by simpa [Call.allowed] using hallowed
      have hne : sid ≠ new := by
        rintro rfl
        exact hfresh (hwhole.2.2 sid conversation hc)
      exact (Function.update_of_ne hne ..).trans hc
  | _ => exact hc

theorem mem_strip {g : Backend} {ids : List Nat} {row : SandboxRow}
    (h : row ∈ (g.strip ids).sandboxes) :
    ∃ old ∈ g.sandboxes, old.id = row.id ∧ old.conversationId = row.conversationId := by
  obtain ⟨old, hold, rfl⟩ := List.mem_map.mp h
  refine ⟨old, hold, ?_, ?_⟩ <;> split <;> rfl

theorem strip_ids {g : Backend} {ids : List Nat} {row : SandboxRow}
    (h : row ∈ (g.strip ids).sandboxes) : ∃ old ∈ g.sandboxes, old.id = row.id := by
  obtain ⟨old, hold, hid, -⟩ := mem_strip h
  exact ⟨old, hold, hid⟩

theorem step_booked {st : Settings} {s s' : System} {a : Controller.Act} (h : Meets booked s)
    (hstep : Controller.step st s a = some s') : Meets booked s' := by
  obtain ⟨hlatest, hhomes, hmade⟩ := h.whole
  rcases step_cases hstep with ⟨q, rfl⟩ | ⟨k, o, job, g, job', -, hk, hm, rfl⟩ | ⟨act, r, -, hr, rfl⟩
  · have hnone : runOf q.job = none := by cases q <;> rfl
    refine h.arrive h.whole (fun r conversation hr => by simp [hnone] at hr) (fun a _ ha => ⟨ha, ?_⟩)
    intro r conversation r' conversation' hr
    simp [hnone] at hr
  · have hnamed : ∀ sid ∈ s.shared.runner.shared.named, sid ∈ g.runner.shared.named := by
      intro sid hsid
      rcases moves_runner hm with he | ⟨c, hc⟩
      · rwa [he]
      · exact step_named hc hsid
    have hrows : ∀ row ∈ s.shared.sandboxes, ∃ old ∈ s.shared.sandboxes, old.id = row.id ∧
        old.conversationId = row.conversationId := fun row hrow => ⟨row, hrow, rfl, rfl⟩
    have hstrip : ∀ ids, ∀ row ∈ (s.shared.strip ids).sandboxes, ∃ old ∈ s.shared.sandboxes,
        old.id = row.id ∧ old.conversationId = row.conversationId := fun _ _ => mem_strip
    cases hm with
    | pass job job' hp =>
        obtain ⟨hrun, hunf, hsand⟩ := passes_keep hp
        exact booked_frame h hk rfl rfl hrows hnamed hrun hunf fun sid hsid => .inl (hsand sid hsid)
    | call job c f g' hc hg =>
        obtain ⟨hrun, hunf, hsand⟩ := calls_keep hc s.shared.next
        obtain ⟨-, rfl⟩ := call_eq_some hg
        exact booked_frame h hk rfl rfl hrows hnamed hrun hunf hsand
    | create c retired sid g' hg =>
        obtain ⟨hallowed, rfl⟩ := call_eq_some hg
        have hfresh : sid ∉ s.shared.runner.shared.named := by simpa [Call.allowed] using hallowed
        have hother : ∀ other conversation, s.shared.conversationOf other = some conversation →
            other ≠ sid := by
          rintro other conversation hc rfl
          exact hfresh (hmade other conversation hc)
        have hold : ∀ other conversation, s.shared.conversationOf other = some conversation →
            Function.update s.shared.conversationOf sid (some c.conversationId) other =
              some conversation := by
          intro other conversation hc
          rwa [Function.update_of_ne (hother other conversation hc)]
        refine h.move hk ⟨hlatest, fun row hrow => ?_, fun other conversation hc => ?_⟩
          (fun r conversation hr => ⟨?_, fun other hother => ?_⟩) (fun j a _ _ ha htwo => ⟨?_, ?_⟩)
        · exact hold _ _ (hhomes row hrow)
        · by_cases he : other = sid
          · subst he
            exact List.mem_append_right _ (by simp [Call.sandboxId])
          · simp only [Function.update_of_ne he] at hc
            exact List.mem_append_left _ (hmade other conversation hc)
        · exact (h.each k _ hk r conversation hr).1
        · cases hr
          rcases hother with ho | ho
          · cases ho
            exact Function.update_self ..
          · cases ho
            exact Function.update_self ..
        · intro r conversation hr
          exact ⟨(ha r conversation hr).1, fun other ho => hold _ _ ((ha r conversation hr).2 other ho)⟩
        · exact htwo
    | claim user conversation hb =>
        refine h.move hk ⟨?_, hhomes, hmade⟩ (fun r conversation' hr => ⟨?_, fun sid hsid => ?_⟩)
          (fun j a _ _ ha _ => ⟨fun r conversation' hr => ⟨?_, (ha r conversation' hr).2⟩, ?_⟩)
        · intro i j a b ha hb' hstatus hc
          rcases getElem?_append_cases ha with ⟨rfl, rfl⟩ | ha
          · have := (List.getElem?_eq_some_iff.mp hb').choose
            simp only [List.length_append, List.length_singleton] at this
            omega
          · rcases getElem?_append_cases hb' with ⟨rfl, rfl⟩ | hb'
            · exact absurd hstatus (not_busy hb ha hc)
            · exact hlatest i j a b ha hb' hstatus hc
        · cases hr
          exact ⟨_, List.getElem?_concat_length, rfl, fun _ => rfl⟩
        · cases hr
          simp [sandboxOf, madeOf, claimOf] at hsid
        · obtain ⟨row, hrow, hrest⟩ := (ha r conversation' hr).1
          exact ⟨row, by rwa [List.getElem?_append_left (List.getElem?_eq_some_iff.mp hrow).choose], hrest⟩
        · intro r _ r' conversation' hr hr'
          cases hr
          obtain ⟨row, hrow, -⟩ := (ha r' conversation' hr').1
          exact Nat.ne_of_gt (List.getElem?_eq_some_iff.mp hrow).choose
    | commit c retired sid =>
        refine h.move hk ⟨hlatest, fun row hrow => ?_, hmade⟩ (fun r conversation hr => ?_)
          (fun j a _ _ ha htwo => ⟨ha, htwo⟩)
        · rcases List.mem_append.mp hrow with hold | hnew
          · obtain ⟨old, hmem, hid, hc⟩ := hstrip _ row hold
            exact hid ▸ hc ▸ hhomes old hmem
          · obtain ⟨new, hmade', rfl⟩ := List.mem_map.mp hnew
            exact (h.each k _ hk c.runId c.conversationId rfl).2 new (.inr (Option.mem_toList.mp hmade'))
        · exact h.each k _ hk r conversation hr
    | fail c ho => exact booked_finish h hk rfl rfl rfl (by simp [sandboxOf])
    | finish c sid v => exact booked_finish h hk rfl rfl rfl (fun _ => id)
    | unfailed c ho => exact booked_frame h hk rfl rfl hrows hnamed rfl (by simp [unfinished]) fun _ => .inl
    | gone c sid => exact booked_frame h hk rfl rfl (hstrip _) hnamed rfl (fun _ => rfl) fun _ => .inl
    | strip ids => exact booked_frame h hk rfl rfl (hstrip _) hnamed rfl id fun _ => .inl
    | close | leave => exact booked_frame h hk rfl rfl hrows hnamed rfl (by simp [unfinished]) fun _ => .inl
    | register | enroll | launch | arm | drain =>
        exact booked_frame h hk rfl rfl hrows hnamed rfl id fun _ => .inl
  · refine ⟨⟨hlatest, hhomes, fun sid conversation hsid => ?_⟩, h.each, h.two⟩
    exact step_named hr (hmade sid conversation hsid)

theorem initial_booked (clock : Int) : Meets booked (System.initial clock) where
  whole := ⟨by simp [Latest, System.initial], by simp [System.initial], by simp [System.initial]⟩
  each := by simp [System.initial]
  two := by simp [System.initial]

theorem runs_ne {s : System} (h : Meets booked s) {i j : Nat} {a b : Job} {c d : Claim}
    (hij : i ≠ j) (hi : s.threads[i]? = some a) (hj : s.threads[j]? = some b)
    (hc : claimOf a = some c) (hd : claimOf b = some d) : c.runId ≠ d.runId :=
  h.two i j a b hij hi hj c.runId c.conversationId d.runId d.conversationId (by simp [runOf, hc])
    (by simp [runOf, hd])

/-- The sandbox and the run of a call of `exec_run`. -/
def execOf : Thread → Option (Nat × Nat)
  | .execRun sid runId | .insertLock sid runId => some (sid, runId)
  | .turn x _ => some (x.sandboxId, x.runId)
  | _ => none

theorem execOf_of_claims {th : Thread} {x : Turn} (h : claims th = some x) :
    execOf th = some (x.sandboxId, x.runId) := by
  cases th with
  | turn y p => cases p <;> simp_all [claims, execOf]
  | _ => simp [claims] at h

theorem move_execOf {g g' : Registry} {reply : Reply} {th th' : Thread}
    (hm : Move g reply th g' th') : execOf th' = execOf th ∨ execOf th' = none := by
  cases hm with
  | read _ _ hr => cases hr <;> first | exact .inl rfl | exact .inr rfl
  | sweepClose _ _ _ _ _ _ h => rcases h with rfl | rfl <;> exact .inr rfl
  | leave => exact .inr rfl
  | _ => exact .inl rfl

/-- The sandbox, the run and the call of a worker that waits for `exec_run`. -/
def executes : Job → Option ((Nat × Nat) × Nat)
  | .executing c sid k => some ((sid, c.runId), k)
  | _ => none

/-- Each call of `exec_run` has its worker. -/
def Linked (s : System) : Prop :=
  ∀ (k : Nat) (th : Thread) (e : Nat × Nat), s.shared.runner.threads[k]? = some th →
    execOf th = some e → ∃ job ∈ s.threads, executes job = some (e, k)

theorem answer_eq_some {g : Backend} {k : Nat} {a : Answer} :
    g.answer k = some a ↔ g.runner.threads[k]? = some (.returned a) := by
  rw [Backend.answer]
  split
  next b hb => simp [hb]
  next hno =>
    refine iff_of_false nofun fun h => hno a h

theorem passes_executes {g : Backend} {o : Outcome} {job job' : Job} (h : Passes g o job job') :
    (executes job' = executes job) ∨
      ∃ e k a, executes job = some (e, k) ∧ g.answer k = some a := by
  cases h with
  | caught c sid k a ha | executed c sid k a ha => exact .inr ⟨_, k, a, rfl, ha⟩
  | notFound c sid k ha => exact .inr ⟨_, k, _, rfl, ha⟩
  | _ => exact .inl rfl

theorem linked_frame {s : System} {k : Nat} {job job' : Job} {g : Backend} (h : Linked s)
    (hk : s.threads[k]? = some job)
    (hold : ∀ (i : Nat) (th : Thread) (e : Nat × Nat), g.runner.threads[i]? = some th →
      execOf th = some e → executes job' = some (e, i) ∨
        s.shared.runner.threads[i]? = some th ∧ (executes job = some (e, i) →
          executes job' = some (e, i))) :
    Linked ⟨g, s.threads.set k job'⟩ := by
  intro i th e hth he
  rcases hold i th e hth he with hnew | ⟨hth, hjob⟩
  · exact ⟨job', mem_set_self hk job', hnew⟩
  · exact exists_set hk (h i th e hth he) hjob

theorem step_linked {st : Settings} {s s' : System} {a : Controller.Act} (h : Linked s)
    (hstep : Controller.step st s a = some s') : Linked s' := by
  rcases step_cases hstep with ⟨q, rfl⟩ | ⟨k, o, job, g, job', -, hk, hm, rfl⟩ | ⟨act, r, ha, hr, rfl⟩
  · intro i th e hth he
    obtain ⟨job, hjob, hex⟩ := h i th e hth he
    exact ⟨job, List.mem_append_left _ hjob, hex⟩
  · cases hm with
    | pass job job' hp =>
        refine linked_frame h hk fun i th e hth he => .inr ⟨hth, fun hex => ?_⟩
        rcases passes_executes hp with hsame | ⟨e', j, a, hex', ha⟩
        · rwa [hsame]
        · -- the call it waits for has returned
          rw [hex, Option.some.injEq, Prod.mk.injEq] at hex'
          obtain ⟨rfl, rfl⟩ := hex'
          cases hth.symm.trans (answer_eq_some.mp ha)
          simp [execOf] at he
    | call job c f g' hc hg =>
        obtain ⟨-, rfl⟩ := call_eq_some hg
        refine linked_frame h hk fun i th e hth he => ?_
        rcases getElem?_append_cases hth with ⟨rfl, rfl⟩ | hth
        · -- only `exec_run` is on behalf of a run
          cases hc <;> cases he
          exact .inl rfl
        · exact .inr ⟨hth, by cases hc <;> simp [executes]⟩
    | create c retired sid g' hg =>
        obtain ⟨-, rfl⟩ := call_eq_some hg
        refine linked_frame h hk fun i th e hth he => ?_
        rcases getElem?_append_cases hth with ⟨rfl, rfl⟩ | hth
        · simp [Call.thread, execOf] at he
        · exact .inr ⟨hth, fun hex => by cases hex⟩
    | _ => exact linked_frame h hk fun i th e hth he => .inr ⟨hth, fun hex => by cases hex⟩
  · cases act with
    | tick now =>
        cases hr
        exact h
    | call c =>
        obtain ⟨-, rfl⟩ := step_call hr
        intro i th e hth he
        rcases getElem?_append_cases hth with ⟨rfl, rfl⟩ | hth
        · obtain ⟨sid, rfl⟩ := drives_call ha
          cases he
        · exact h i th e hth he
    | advance k reply =>
        obtain ⟨th, g, th', hk, hm, rfl⟩ := step_advance hr
        intro i a e ha he
        rcases getElem?_set_cases ha with ⟨rfl, rfl⟩ | ⟨-, ha⟩
        · rcases move_execOf hm with hsame | hnone
          · exact h i th e hk (hsame ▸ he)
          · simp [hnone] at he
        · exact h i a e ha he

theorem initial_linked (clock : Int) : Linked (System.initial clock) := by
  intro k th e h
  simp [System.initial, Resident.State.initial] at h

/-- Two calls of `exec_run` are on different sandboxes. -/
def Single (r : Resident.State) : Prop :=
  ∀ (i j : Nat) (a b : Thread) (e e' : Nat × Nat), i ≠ j → r.threads[i]? = some a →
    r.threads[j]? = some b → execOf a = some e → execOf b = some e' → e.1 ≠ e'.1

theorem single_of_booked {s : System} (hbook : Meets booked s) (hlink : Linked s) :
    Single s.shared.runner := by
  intro i j a b e e' hij hi hj ha hb hsid
  obtain ⟨job, hjob, hex⟩ := hlink i a e hi ha
  obtain ⟨job', hjob', hex'⟩ := hlink j b e' hj hb
  obtain ⟨m, hm⟩ := List.getElem?_of_mem hjob
  obtain ⟨n, hn⟩ := List.getElem?_of_mem hjob'
  cases job with
  | executing c sid k =>
      cases hex
      cases job' with
      | executing c' sid' k' =>
          cases hex'
          cases hsid
          obtain ⟨⟨row, hrow, hc, hs⟩, hhome⟩ := hbook.each m _ hm c.runId c.conversationId rfl
          obtain ⟨⟨row', hrow', hc', hs'⟩, hhome'⟩ := hbook.each n _ hn c'.runId c'.conversationId rfl
          have hconv : c.conversationId = c'.conversationId :=
            Option.some.inj ((hhome sid (.inl rfl)).symm.trans (hhome' sid (.inl rfl)))
          have hle := hbook.whole.1 c.runId c'.runId row row' hrow hrow' (hs rfl) (by rw [hc, hc', hconv])
          have hge := hbook.whole.1 c'.runId c.runId row' row hrow' hrow (hs' rfl) (by rw [hc, hc', hconv])
          by_cases hmn : m = n
          · subst hmn
            cases hm.symm.trans hn
            exact hij rfl
          · exact hbook.two m n _ _ hmn hm hn _ _ _ _ rfl rfl (by omega)
      | _ => simp [executes] at hex'
  | _ => simp [executes] at hex

def Slotted (r : Resident.State) : Prop :=
  ∀ th ∈ r.threads, ∀ x, claims th = some x → x.sandboxId ∈ r.shared.sandboxes →
    r.shared.live x.sandboxId = some x.runId

theorem slotted_frame {r : Resident.State} {k : Nat} {th th' : Thread} {g : Registry} (h : Slotted r)
    (hk : r.threads[k]? = some th) (hclaims : ∀ x, claims th' = some x → claims th = some x)
    (hlive : ∀ a ∈ r.threads, ∀ x, claims a = some x → x.sandboxId ∈ g.sandboxes →
      x.sandboxId ∈ r.shared.sandboxes ∧ g.live x.sandboxId = r.shared.live x.sandboxId) :
    Slotted ⟨g, r.threads.set k th'⟩ := by
  intro a ha x hx hmem
  have hold : ∃ b ∈ r.threads, claims b = some x := by
    rcases List.mem_or_eq_of_mem_set ha with ha | rfl
    · exact ⟨a, ha, hx⟩
    · exact ⟨th, List.mem_of_getElem? hk, hclaims x hx⟩
  obtain ⟨b, hb, hbx⟩ := hold
  obtain ⟨hin, hl⟩ := hlive b hb x hbx hmem
  exact hl.trans (h b hb x hbx hin)

theorem step_slotted {r r' : Resident.State} {a : Resident.Act} (hres : Meets reserved r)
    (hsingle : Single r) (h : Slotted r) (hstep : Resident.step r a = some r') : Slotted r' := by
  cases a with
  | tick now =>
      cases hstep
      exact h
  | call c =>
      obtain ⟨-, rfl⟩ := step_call hstep
      intro th hth x hx hmem
      rcases mem_append_singleton.mp hth with hold | rfl
      · exact h th hold x hx hmem
      · cases c <;> simp [Call.thread, claims] at hx
  | advance k reply =>
      obtain ⟨th, g, th', hk, hm, rfl⟩ := step_advance hstep
      have hsame : ∀ a ∈ r.threads, ∀ x, claims a = some x → x.sandboxId ∈ r.shared.sandboxes →
          x.sandboxId ∈ r.shared.sandboxes ∧
            r.shared.live x.sandboxId = r.shared.live x.sandboxId := fun _ _ _ _ hmem => ⟨hmem, rfl⟩
      have hdetach : ∀ gone, ∀ a ∈ r.threads, ∀ x, claims a = some x →
          x.sandboxId ∈ (r.shared.detach gone).sandboxes → x.sandboxId ∈ r.shared.sandboxes ∧
            (r.shared.detach gone).live x.sandboxId = r.shared.live x.sandboxId := by
        intro gone a _ x _ hmem
        obtain ⟨hin, hne⟩ := detach_sandboxes.mp hmem
        exact ⟨hin, by simp [Registry.live, Registry.detach, hne]⟩
      have hcreate : ∀ sid, th.creates = some sid → ∀ a ∈ r.threads, ∀ x, claims a = some x →
          x.sandboxId ≠ sid := by
        intro sid hc a ha x hx
        obtain ⟨j, hj⟩ := List.getElem?_of_mem ha
        exact turn_ne_created hres hk hc hj (turnOf_of_claims hx).1
      have hother : ∀ (y : Turn) (p : Phase), th = .turn y p → claims th = none →
          ∀ a ∈ r.threads, ∀ x, claims a = some x → x.sandboxId ≠ y.sandboxId := by
        rintro y p rfl hnone a ha x hx
        obtain ⟨j, hj⟩ := List.getElem?_of_mem ha
        have hjk : j ≠ k := by
          rintro rfl
          cases hk.symm.trans hj
          simp [hnone] at hx
        exact hsingle j k a _ _ _ hjk hj hk (execOf_of_claims hx) rfl
      cases hm with
      | read _ _ hr =>
          cases hr with
          | turn x p p' hgo =>
              exact slotted_frame h hk (by rw [goes_claims hgo]; exact fun _ => id) hsame
          | _ => exact slotted_frame h hk (of_none rfl) hsame
      | enter new =>
          refine slotted_frame h hk (of_none rfl) fun a ha x hx hmem => ?_
          rw [Registry.enter, List.mem_append, List.mem_singleton] at hmem
          exact ⟨hmem.resolve_right (hcreate new rfl a ha x hx), rfl⟩
      | adopt new t =>
          refine slotted_frame h hk (of_none rfl) fun a ha x hx hmem => ⟨hmem, ?_⟩
          simp [Registry.live, Registry.register, Registry.insertLock, hcreate new rfl a ha x hx]
      | claim y t hmem =>
          intro a ha x hx hin
          by_cases he : x.sandboxId = y.sandboxId
          · rcases List.mem_or_eq_of_mem_set ha with ha | rfl
            · exact absurd he (hother y _ rfl rfl a ha x hx)
            · cases hx
              simp [Registry.live, Registry.claimLiveRun]
          · rcases List.mem_or_eq_of_mem_set ha with ha | rfl
            · simpa [Registry.live, Registry.claimLiveRun, he] using h a ha x hx hin
            · cases hx
              exact absurd rfl he
      | release y answer =>
          intro a ha x hx hin
          obtain ⟨j, hj⟩ := List.getElem?_of_mem ha
          rcases getElem?_set_cases hj with ⟨-, rfl⟩ | ⟨hjk, hj⟩
          · cases hx
          · have hne := hsingle j k a _ _ _ hjk hj hk (execOf_of_claims hx) rfl
            simpa [Registry.live, Registry.releaseLiveRun, hne] using
              h a (List.mem_of_getElem? hj) x hx hin
      | destroy | fell | take | detachVanished => exact slotted_frame h hk (of_none rfl) (hdetach _)
      | touch | relayTouch | touchTurn =>
          rw [Registry.touch_frame]
          exact slotted_frame h hk (of_none rfl) hsame
      | retire =>
          rw [Registry.retire_frame]
          exact slotted_frame h hk (of_none rfl) hsame
      | sweepClose _ _ _ _ _ _ hth =>
          rcases hth with rfl | rfl <;> exact slotted_frame h hk (of_none rfl) hsame
      | close x t next p hp =>
          rcases hp with rfl | rfl
          · cases next <;> exact slotted_frame h hk (of_none rfl) hsame
          · exact slotted_frame h hk (of_none rfl) hsame
      | awaitReady x t hs hr p hp =>
          rcases hp with rfl | rfl <;> exact slotted_frame h hk (of_none rfl) hsame
      | submit => exact slotted_frame h hk (fun _ => id) hsame
      | _ => exact slotted_frame h hk (of_none rfl) hsame

/-- What holds in every state of the controller and its runner. -/
structure Sound (s : System) : Prop where
  reserved : Meets reserved s.shared.runner
  owned : Owned s.shared.runner
  booked : Meets booked s
  linked : Linked s
  slotted : Slotted s.shared.runner

theorem step_sound {st : Settings} {s s' : System} {a : Controller.Act} (h : Sound s)
    (hstep : Controller.step st s a = some s') : Sound s' where
  reserved := step_runner_invariant (fun _ _ _ => step_reserved) h.reserved hstep
  owned := step_runner_invariant (fun _ _ _ => step_owned) h.owned hstep
  booked := step_booked h.booked hstep
  linked := step_linked h.linked hstep
  slotted := by
    rcases step_runner hstep with he | ⟨act, hr⟩
    · rw [he]
      exact h.slotted
    · exact step_slotted h.reserved (single_of_booked h.booked h.linked) h.slotted hr

theorem initial_sound (clock : Int) : Sound (System.initial clock) where
  reserved := initial_reserved clock []
  owned := nofun
  booked := initial_booked clock
  linked := initial_linked clock
  slotted := by simp [Slotted, System.initial, Resident.State.initial]

end AgentWeb.Bookings
