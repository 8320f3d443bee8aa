import AgentWeb.Bookings

namespace AgentWeb.CleanDrain

open Transitions Interleaving Resident Controller Bookings

/-- Once a drain has returned 0 no run is `running` and no worker is alive. -/
def NothingLeft (s : System) : Prop :=
  .drained 0 ∈ s.threads →
    (∀ row ∈ s.shared.runs, row.status ≠ .running) ∧ ∀ r, s.shared.life r ≠ .alive

/-- A `start_run` that has passed the test of the flag and has not returned. -/
def flying : Job → Bool
  | .claiming _ _ | .ensuring _ | .probing _ _ _ | .touching _ _ _ | .retiring _ _ | .making _ _
  | .creating _ _ _ _ | .flushing _ _ _ | .committing _ _ _ | .registering _ _ | .enrolling _ _
  | .launching _ _ | .undoing _ _ | .destroying _ _ | .failing _ => true
  | _ => false

def works : Job → Option Nat
  | .ready c _ | .executing c _ _ | .gone c _ | .finishing c _ | .closing c _ | .leaving c _ =>
      some c.runId
  | _ => none

def drainage : Job → Bool
  | .snapshot | .joining _ | .counting | .drained _ => true
  | _ => false

def counts : Job → Bool
  | .counting => true
  | _ => false

def ends : Outcome → Job → Bool
  | .ok, _ => true
  | _, .enrolling _ _ | _, .launching _ _ | _, .failing _ => false
  | .dies, .executing _ _ _ => false
  | .fails, .finishing _ _ | .dies, .finishing _ _ => false
  | _, _ => true

/-- A drain counts when no `start_run` is under way behind the flag, and the row
of every run is finalized. -/
def Settles (s : System) : Controller.Act → Prop
  | .job k o => ∀ job ∈ s.threads[k]?, ends o job = true ∧
      (counts job = true → ∀ b ∈ s.threads, flying b = false)
  | _ => True

instance (s : System) : (a : Controller.Act) → Decidable (Settles s a)
  | .job k o => inferInstanceAs (Decidable (∀ job ∈ s.threads[k]?, ends o job = true ∧
      (counts job = true → ∀ b ∈ s.threads, flying b = false)))
  | .request _ | .runner _ _ | .destroy _ | .tick _ => .isTrue trivial

def Carries (job : Job) (r : Nat) : Prop :=
  unfinished job = true ∧ ∃ c, claimOf job = some c ∧ c.runId = r

/-- Each running row has a job that finalizes it, and each live thread a worker
that is in `_workers`. -/
structure Tracked (s : System) : Prop where
  shut : ∀ job ∈ s.threads, drainage job = true → s.shared.draining = true
  rows : ∀ (r : Nat) (row : RunRow), s.shared.runs[r]? = some row → row.status = .running →
    ∃ job ∈ s.threads, Carries job r
  alive : ∀ r, s.shared.life r = .alive → ∃ job ∈ s.threads, works job = some r
  launched : ∀ c sid, .launching c sid ∈ s.threads → c.runId ∈ s.shared.workers
  working : ∀ job ∈ s.threads, ∀ r, works job = some r →
    r ∈ s.shared.workers ∧ s.shared.life r = .alive
  quiet : .drained 0 ∈ s.threads → ∀ job ∈ s.threads, flying job = false ∧ works job = none

theorem busy_of_carries {job : Job} {r : Nat} (h : Carries job r) :
    flying job = true ∨ works job = some r := by
  obtain ⟨hu, c, hc, rfl⟩ := h
  cases job <;> simp_all [unfinished, claimOf, flying, works]

theorem nothingLeft_of_tracked {s : System} (h : Tracked s) : NothingLeft s := by
  intro hdrained
  have hquiet := h.quiet hdrained
  refine ⟨fun row hrow hrun => ?_, fun r hr => ?_⟩
  · obtain ⟨r, hr⟩ := List.getElem?_of_mem hrow
    obtain ⟨job, hjob, hc⟩ := h.rows r row hr hrun
    obtain ⟨hno, hnone⟩ := hquiet job hjob
    rcases busy_of_carries hc with hf | hw
    · simp [hno] at hf
    · simp [hnone] at hw
  · obtain ⟨job, hjob, hw⟩ := h.alive r hr
    simp [(hquiet job hjob).2] at hw

theorem claimOf_of_works {job : Job} {r : Nat} (h : works job = some r) :
    ∃ c, claimOf job = some c ∧ c.runId = r := by
  cases job <;> simp_all [works, claimOf]

theorem moves_busy {st : Settings} {g g' : Backend} {o : Outcome} {job job' : Job}
    (hm : Moves st g o job g' job') (hshut : g.draining = true) (hf : flying job = false)
    (hw : works job = none) : flying job' = false ∧ works job' = none := by
  cases hm with
  | pass _ _ hp =>
      cases hp with
      | admitted _ _ h => simp [hshut] at h
      | _ => first | exact ⟨rfl, rfl⟩ | simp [flying, works] at hf hw
  | call _ _ _ _ hc => cases hc <;> first | exact ⟨rfl, rfl⟩ | simp [flying, works] at hf hw
  | _ => first | exact ⟨rfl, rfl⟩ | simp [flying, works] at hf hw

theorem tracked_frame {s : System} {k : Nat} {job job' : Job} {g : Backend}
    (hbook : Meets booked s) (h : Tracked s) (hk : s.threads[k]? = some job)
    (hbusy : s.shared.draining = true → flying job = false → works job = none →
      flying job' = false ∧ works job' = none)
    (hflag : s.shared.draining = true → g.draining = true)
    (hshut : drainage job' = true → g.draining = true)
    (hrows : ∀ (r : Nat) (row : RunRow), g.runs[r]? = some row → row.status = .running →
      Carries job' r ∨ ¬ Carries job r ∧
        ∃ old, s.shared.runs[r]? = some old ∧ old.status = .running)
    (halive : ∀ r, g.life r = .alive →
      works job' = some r ∨ works job ≠ some r ∧ s.shared.life r = .alive)
    (hothers : ∀ r, (∀ c, claimOf job = some c → c.runId ≠ r) →
      (r ∈ s.shared.workers → r ∈ g.workers) ∧ g.life r = s.shared.life r)
    (hlaunched : ∀ c sid, job' = .launching c sid → c.runId ∈ g.workers)
    (hworking : ∀ r, works job' = some r → r ∈ g.workers ∧ g.life r = .alive)
    (hquiet : job' = .drained 0 → ∀ b ∈ s.threads, flying b = false ∧ works b = none) :
    Tracked ⟨g, s.threads.set k job'⟩ where
  shut b hb hd := by
    rcases List.mem_or_eq_of_mem_set hb with hold | rfl
    · exact hflag (h.shut b hold hd)
    · exact hshut hd
  rows r row hrow hrun := by
    rcases hrows r row hrow hrun with hnew | ⟨hno, old, hold, hrun'⟩
    · exact ⟨job', mem_set_self hk _, hnew⟩
    · exact exists_set hk (h.rows r old hold hrun') fun hc => absurd hc hno
  alive r hr := by
    rcases halive r hr with hnew | ⟨hno, hold⟩
    · exact ⟨job', mem_set_self hk _, hnew⟩
    · exact exists_set hk (h.alive r hold) fun hc => absurd hc hno
  launched c sid hmem := by
    obtain ⟨j, hj⟩ := List.getElem?_of_mem hmem
    rcases getElem?_set_cases hj with ⟨-, he⟩ | ⟨hjk, hj⟩
    · exact hlaunched c sid he.symm
    · exact (hothers c.runId fun d hd => runs_ne hbook (Ne.symm hjk) hk hj hd rfl).1
        (h.launched c sid (List.mem_of_getElem? hj))
  working b hb r hr := by
    obtain ⟨j, hj⟩ := List.getElem?_of_mem hb
    rcases getElem?_set_cases hj with ⟨-, rfl⟩ | ⟨hjk, hj⟩
    · exact hworking r hr
    · obtain ⟨hin, hlive⟩ := h.working b (List.mem_of_getElem? hj) r hr
      obtain ⟨d, hd, rfl⟩ := claimOf_of_works hr
      obtain ⟨hkeep, hlife⟩ := hothers d.runId fun c hc => runs_ne hbook (Ne.symm hjk) hk hj hc hd
      exact ⟨hkeep hin, hlife.trans hlive⟩
  quiet hmem b hb := by
    rcases List.mem_or_eq_of_mem_set hmem with hold | rfl
    · have hall := h.quiet hold
      rcases List.mem_or_eq_of_mem_set hb with hb | rfl
      · exact hall b hb
      · obtain ⟨hf, hw⟩ := hall job (List.mem_of_getElem? hk)
        exact hbusy (h.shut _ hold rfl) hf hw
    · rcases List.mem_or_eq_of_mem_set hb with hb | rfl
      · exact hquiet rfl b hb
      · exact ⟨rfl, rfl⟩

theorem tracked_same {s : System} {k : Nat} {job job' : Job} {g : Backend}
    (hbook : Meets booked s) (h : Tracked s) (hk : s.threads[k]? = some job)
    (hbusy : s.shared.draining = true → flying job = false → works job = none →
      flying job' = false ∧ works job' = none)
    (hworks : works job' = works job) (hdrain : drainage job' = false)
    (hlaunch : ∀ c sid, job' ≠ .launching c sid)
    (hflag : s.shared.draining = true → g.draining = true)
    (hworkers : g.workers = s.shared.workers) (hlife : g.life = s.shared.life)
    (hrows : ∀ (r : Nat) (row : RunRow), g.runs[r]? = some row → row.status = .running →
      Carries job' r ∨ ¬ Carries job r ∧
        ∃ old, s.shared.runs[r]? = some old ∧ old.status = .running) :
    Tracked ⟨g, s.threads.set k job'⟩ := by
  refine tracked_frame hbook h hk hbusy hflag (fun hd => ?_) hrows (fun r hr => ?_) (fun r _ => ?_)
    (fun c sid he => absurd he (hlaunch c sid)) (fun r hr => ?_) (fun he => ?_)
  · simp [hdrain] at hd
  · rw [hlife] at hr
    by_cases hw : works job = some r
    · exact .inl (hworks.trans hw)
    · exact .inr ⟨hw, hr⟩
  · rw [hworkers, hlife]
    exact ⟨id, rfl⟩
  · rw [hworkers, hlife]
    exact h.working job (List.mem_of_getElem? hk) r (hworks ▸ hr)
  · simp [he, drainage] at hdrain

theorem passes_tracked {g : Backend} {o : Outcome} {job job' : Job} (h : Passes g o job job')
    (hends : ends o job = true) :
    works job' = works job ∧ (∀ r, Carries job r → Carries job' r) ∧
      (drainage job' = true → drainage job = true) ∧ (∀ c sid, job' ≠ .launching c sid) ∧
      (job' = .drained 0 → counts job = true ∧
        g.workers.countP (fun r => g.life r = .alive) = 0) := by
  cases h with
  | unbuilt _ _ ho | unlaunched _ _ ho => cases o <;> simp_all [ends]
  | caught _ _ _ _ _ ho | unwritten _ _ ho | died _ _ ho =>
      subst ho
      simp [ends] at hends
  | count => exact ⟨rfl, fun _ => id, fun _ => rfl, nofun, fun he => ⟨rfl, Job.drained.inj he⟩⟩
  | _ => exact ⟨rfl, fun _ => id, fun hd => by first | exact hd | rfl, nofun, nofun⟩

theorem calls_tracked {st : Settings} {g : Backend} {job : Job} {c : Call} {f : Nat → Job}
    (h : Calls st g job c f) (k : Nat) :
    works (f k) = works job ∧ (∀ r, Carries job r → Carries (f k) r) ∧
      drainage (f k) = false ∧ ∀ c sid, f k ≠ .launching c sid := by
  cases h <;> exact ⟨rfl, fun _ => id, rfl, nofun⟩

theorem finish_running {g : Backend} {c r : Nat} {v : Verdict} {row : RunRow}
    (h : (g.finish c v).runs[r]? = some row) (hrun : row.status = .running) :
    c ≠ r ∧ g.runs[r]? = some row := by
  simp only [Backend.finish, List.getElem?_modify] at h
  obtain ⟨old, hold, rfl⟩ := Option.map_eq_some_iff.mp h
  by_cases he : c = r
  · simp [he] at hrun
  · exact ⟨he, by simpa [he] using hold⟩

theorem setLife_other {g : Backend} {c r : Nat} {life : Life} (h : c ≠ r) :
    (g.setLife c life).life r = g.life r := by
  simp [Backend.setLife, Ne.symm h]

theorem tracked_request {s : System} (h : Tracked s) (q : Request) :
    Tracked ⟨s.shared, s.threads ++ [q.job]⟩ := by
  have hnew : ∀ b ∈ s.threads ++ [q.job], b ∈ s.threads ∨ b = q.job := by
    intro b hb
    exact (List.mem_append.mp hb).imp id List.mem_singleton.mp
  have hidle : flying q.job = false ∧ works q.job = none ∧ drainage q.job = false := by
    cases q <;> exact ⟨rfl, rfl, rfl⟩
  refine ⟨fun b hb hd => ?_, fun r row hr hrun => ?_, fun r hr => ?_, fun c sid hmem => ?_,
    fun b hb r hr => ?_, fun hmem b hb => ?_⟩
  · rcases hnew b hb with hold | rfl
    · exact h.shut b hold hd
    · simp [hidle] at hd
  · obtain ⟨b, hb, hc⟩ := h.rows r row hr hrun
    exact ⟨b, List.mem_append_left _ hb, hc⟩
  · obtain ⟨b, hb, hw⟩ := h.alive r hr
    exact ⟨b, List.mem_append_left _ hb, hw⟩
  · rcases hnew _ hmem with hold | he
    · exact h.launched c sid hold
    · cases q <;> cases he
  · rcases hnew b hb with hold | rfl
    · exact h.working b hold r hr
    · simp [hidle] at hr
  · rcases hnew _ hmem with hold | he
    · rcases hnew b hb with hb | rfl
      · exact h.quiet hold b hb
      · exact ⟨hidle.1, hidle.2.1⟩
    · cases q <;> cases he

theorem step_tracked {st : Settings} {s s' : System} {a : Controller.Act} (hbook : Meets booked s)
    (h : Tracked s) (hs : Settles s a) (hstep : Controller.step st s a = some s') :
    Tracked s' := by
  rcases step_cases hstep with ⟨q, rfl⟩ | ⟨k, o, job, g, job', rfl, hk, hm, rfl⟩ | ⟨act, r, -, -, rfl⟩
  · exact tracked_request h q
  · have hmem := List.mem_of_getElem? hk
    have hmine := h.working job hmem
    have hbusy := moves_busy hm
    obtain ⟨hends, hcount⟩ := hs job hk
    have hrows : (∀ r, Carries job r → Carries job' r) → ∀ (r : Nat) (row : RunRow),
        s.shared.runs[r]? = some row → row.status = .running → Carries job' r ∨
          ¬ Carries job r ∧ ∃ old, s.shared.runs[r]? = some old ∧ old.status = .running := by
      intro hcarry r row hr hrun
      by_cases hc : Carries job r
      · exact .inl (hcarry r hc)
      · exact .inr ⟨hc, row, hr, hrun⟩
    have halive : works job' = works job → ∀ r, s.shared.life r = .alive →
        works job' = some r ∨ works job ≠ some r ∧ s.shared.life r = .alive := by
      intro he r hr
      by_cases hw : works job = some r
      · exact .inl (he.trans hw)
      · exact .inr ⟨hw, hr⟩
    have hothers : ∀ r, (∀ c, claimOf job = some c → c.runId ≠ r) →
        (r ∈ s.shared.workers → r ∈ s.shared.workers) ∧ s.shared.life r = s.shared.life r :=
      fun r _ => ⟨id, rfl⟩
    have hfinish : ∀ c v, claimOf job = some c → ∀ (r : Nat) (row : RunRow),
        (s.shared.finish c.runId v).runs[r]? = some row → row.status = .running →
          Carries job' r ∨ ¬ Carries job r ∧
            ∃ old, s.shared.runs[r]? = some old ∧ old.status = .running := by
      intro c v hc r row hr hrun
      obtain ⟨hne, hold⟩ := finish_running hr hrun
      refine .inr ⟨?_, row, hold, hrun⟩
      rintro ⟨-, d, hd, he⟩
      cases hc.symm.trans hd
      exact hne he
    cases hm with
    | pass job job' hp =>
        obtain ⟨hw, hcarry, hdrain, hno, hzero⟩ := passes_tracked hp hends
        refine tracked_frame hbook h hk hbusy id (fun hd => h.shut job hmem (hdrain hd))
          (hrows hcarry) (halive hw) hothers (fun c sid he => absurd he (hno c sid))
          (fun r hr => hmine r (hw ▸ hr)) fun he b hb => ?_
        obtain ⟨hcounts, hnone⟩ := hzero he
        refine ⟨hcount hcounts b hb, ?_⟩
        cases hwb : works b with
        | none => rfl
        | some r =>
            obtain ⟨hin, hlive⟩ := h.working b hb r hwb
            exact absurd (decide_eq_true hlive) (List.countP_eq_zero.mp hnone r hin)
    | call job c f g' hc hg =>
        obtain ⟨hw, hcarry, hdrain, hno⟩ := calls_tracked hc s.shared.next
        obtain ⟨-, rfl⟩ := call_eq_some hg
        exact tracked_same hbook h hk hbusy hw hdrain hno id rfl rfl (hrows hcarry)
    | create c retired sid g' hg =>
        obtain ⟨-, rfl⟩ := call_eq_some hg
        refine tracked_same hbook h hk hbusy rfl rfl (by simp) id rfl rfl (hrows fun r hc => ?_)
        obtain ⟨-, d, hd, rfl⟩ := hc
        cases hd
        exact ⟨rfl, _, rfl, rfl⟩
    | claim user conversation hb =>
        refine tracked_same hbook h hk hbusy rfl rfl (by simp) id rfl rfl fun r row hr hrun => ?_
        rcases getElem?_append_cases hr with ⟨rfl, -⟩ | hold
        · exact .inl ⟨rfl, _, rfl, rfl⟩
        · refine .inr ⟨?_, row, hold, hrun⟩
          rintro ⟨-, d, hd, -⟩
          cases hd
    | enroll c sid =>
        refine tracked_frame hbook h hk hbusy id (fun hd => ?_) (hrows fun _ => id)
          (fun r hr => .inr ⟨?_, hr⟩) (fun r _ => ⟨List.mem_append_left _, rfl⟩) (fun d sid' he => ?_)
          (fun r hr => ?_) fun he => ?_
        · cases hd
        · simp [works]
        · cases he
          exact List.mem_append_right _ (List.mem_singleton_self _)
        · cases hr
        · cases he
    | launch c sid =>
        refine tracked_frame hbook h hk hbusy id (fun hd => ?_) (hrows fun _ => id)
          (fun r hr => ?_) (fun r hne => ⟨id, setLife_other (hne c rfl)⟩) (by simp) (fun r hr => ?_)
          fun he => ?_
        · cases hd
        · by_cases he : c.runId = r
          · exact .inl (congrArg some he)
          · exact .inr ⟨by simp [works], setLife_other he ▸ hr⟩
        · cases hr
          exact ⟨h.launched c sid hmem, by simp [Backend.setLife]⟩
        · cases he
    | fail c ho =>
        exact tracked_same hbook h hk hbusy rfl rfl (by simp) id rfl rfl (hfinish c .error rfl)
    | finish c sid v =>
        exact tracked_same hbook h hk hbusy rfl rfl (by simp) id rfl rfl (hfinish c v rfl)
    | unfailed c ho => cases o <;> simp_all [ends]
    | leave c sid =>
        refine tracked_frame hbook h hk hbusy id (fun hd => ?_) (hrows fun _ => id) (fun r hr => ?_)
          (fun r hne => ⟨fun hin => ?_, setLife_other (hne c rfl)⟩) (by simp) (of_none rfl) fun he => ?_
        · cases hd
        · by_cases he : c.runId = r
          · subst he
            simp [Backend.setLife] at hr
          · exact .inr ⟨fun hw => he (Option.some.inj hw), setLife_other he ▸ hr⟩
        · exact List.mem_filter.mpr ⟨hin, by simpa using (hne c rfl).symm⟩
        · cases he
    | drain =>
        exact tracked_frame hbook h hk hbusy (fun _ => rfl) (fun _ => rfl) (hrows fun _ => id)
          (halive rfl) hothers (by simp) (of_none rfl) fun he => by cases he
    | _ =>
        exact tracked_same hbook h hk hbusy rfl rfl (by simp) id rfl rfl (hrows fun _ => id)
  · exact ⟨h.shut, h.rows, h.alive, h.launched, h.working, h.quiet⟩

theorem initial_tracked (clock : Int) : Tracked (System.initial clock) := by
  constructor <;> simp [System.initial]

/-- A drain that returns 0 leaves nothing running, in a run whose drains settle. -/
theorem nothingLeft_of_settles (st : Settings) (clock : Int) (acts : List Controller.Act)
    (h : EachStep (Controller.step st) Settles (System.initial clock) acts) :
    Always (Controller.step st) NothingLeft (System.initial clock) acts :=
  always_of_eachStep (J := fun s => Meets booked s ∧ Tracked s)
    (fun _ hs => nothingLeft_of_tracked hs.2)
    (fun _ _ _ hs hg hstep => ⟨step_booked hs.1 hstep, step_tracked hs.1 hs.2 hg hstep⟩)
    ⟨initial_booked clock, initial_tracked clock⟩ h

def finished : List Controller.Act :=
  [Act.request (.start 0 0)] ++ builds 0 0 0 ++ pumps 1 ++ finishes 0 1 ++ [Act.request .drain] ++
    List.replicate 4 (Act.job 1 .ok)

theorem nothingLeft_of_settles_finished :
    EachStep (Controller.step ⟨5, 10⟩) Settles (System.initial 0) finished ∧
      Always (Controller.step ⟨5, 10⟩) NothingLeft (System.initial 0) finished := by
  have h : EachStep (Controller.step ⟨5, 10⟩) Settles (System.initial 0) finished := by decide
  exact ⟨h, nothingLeft_of_settles ⟨5, 10⟩ 0 finished h⟩

/-- A `start_run` tests the flag before the drain and claims after it. -/
theorem not_nothingLeft_straddling :
    ¬ ∀ (st : Settings) (clock : Int) (acts : List Controller.Act),
      Always (Controller.step st) NothingLeft (System.initial clock) acts := by
  intro h
  obtain ⟨s, hr, hdrained, hrun⟩ : ∃ s, run (Controller.step ⟨5, 10⟩) (System.initial 0)
      ([Act.request (.start 0 0), .job 0 .ok, .job 0 .ok, .request .drain] ++
        List.replicate 4 (Act.job 1 .ok) ++ [Act.job 0 .ok]) = some s ∧
      s.threads[1]? = some (.drained 0) ∧ s.shared.runs[0]? = some ⟨0, .running⟩ :=
    ⟨_, rfl, rfl, rfl⟩
  have hleft := (h ⟨5, 10⟩ 0 _).final hr (List.mem_of_getElem? hdrained)
  exact hleft.1 _ (List.mem_of_getElem? hrun) rfl

end AgentWeb.CleanDrain
