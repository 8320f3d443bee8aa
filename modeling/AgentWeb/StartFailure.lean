import AgentWeb.Naming

namespace AgentWeb.StartFailure

open Transitions Interleaving Resident ExecLock Controller Bookings Naming

/-- After a `start_run` that raised: its run has ended in error and is in
neither map, and the sandbox made for it is neither held by the runner nor in a
running row. -/
structure Clean (g : Backend) (c : Claim) : Prop where
  row : (g.runs[c.runId]?).map (·.status) = some (.ended .error)
  active : g.active c.runId = none
  workers : c.runId ∉ g.workers
  runner : ∀ sid, c.made = some sid → sid ∉ g.runner.shared.sandboxes
  rows : ∀ sid, c.made = some sid → ∀ row ∈ g.sandboxes, row.id = sid → row.running = false

def FailsClean (s : System) : Prop := ∀ c, .raised c ∈ s.threads → Clean s.shared c

def launches : Job → Bool
  | .enrolling _ _ | .launching _ _ => true
  | _ => false

def finalizes : Job → Bool
  | .failing _ => true
  | _ => false

def drains : Thread → Bool
  | .drain _ => true
  | _ => false

/-- The thread of a worker starts, and so does the one that `create` starts. -/
def Starts (s : System) : Controller.Act → Prop
  | .runner k .raises => ∀ th ∈ s.shared.runner.threads[k]?, drains th = false
  | .job _ .ok => True
  | .job k _ => ∀ job ∈ s.threads[k]?, launches job = false
  | _ => True

/-- The finalizing write of a `start_run` succeeds. -/
def Finalizes (s : System) : Controller.Act → Prop
  | .job _ .ok => True
  | .job k _ => ∀ job ∈ s.threads[k]?, finalizes job = false
  | _ => True

instance (s : System) : (a : Controller.Act) → Decidable (Starts s a)
  | .runner k .raises => inferInstanceAs
      (Decidable (∀ th ∈ s.shared.runner.threads[k]?, drains th = false))
  | .runner _ .ok | .runner _ .fails | .runner _ (.handshake _) => .isTrue trivial
  | .job _ .ok => .isTrue trivial
  | .job k .fails | .job k .dies | .job k (.fresh _) | .job k (.verdict _) =>
      inferInstanceAs (Decidable (∀ job ∈ s.threads[k]?, launches job = false))
  | .request _ | .destroy _ | .tick _ => .isTrue trivial

instance (s : System) : (a : Controller.Act) → Decidable (Finalizes s a)
  | .job _ .ok => .isTrue trivial
  | .job k .fails | .job k .dies | .job k (.fresh _) | .job k (.verdict _) =>
      inferInstanceAs (Decidable (∀ job ∈ s.threads[k]?, finalizes job = false))
  | .request _ | .runner _ _ | .destroy _ | .tick _ => .isTrue trivial

/-- The run has been put in `_workers`. -/
def enrolled : Job → Bool
  | .launching _ _ | .ready _ _ | .executing _ _ _ | .gone _ _ | .finishing _ _ | .closing _ _
  | .leaving _ _ | .ended _ _ => true
  | _ => false

def committed : Job → Bool
  | .registering _ _ | .enrolling _ _ => true
  | job => enrolled job

/-- What a `start_run` has not done yet or has undone is not there. -/
def tidy : Outline Backend Job where
  whole g := ∀ r ∈ g.workers, r < g.runs.length
  each g job := ∀ c, claimOf job = some c →
    (enrolled job = false → c.runId ∉ g.workers) ∧
    (committed job = false → ∀ sid, c.made = some sid → ∀ row ∈ g.sandboxes, row.id ≠ sid) ∧
    (job = .raised c → (g.runs[c.runId]?).map (·.status) = some (.ended .error) ∧
      g.active c.runId = none)
  two a b := ∀ c d sid, claimOf a = some c → claimOf b = some d → c.made = some sid →
    d.made ≠ some sid
  symm _ _ h c d sid hc hd hm hm' := h d c sid hd hc hm' hm

theorem passes_claim {g : Backend} {o : Outcome} {job job' : Job} (h : Passes g o job job') :
    claimOf job' = claimOf job := by
  cases h <;> rfl

theorem calls_claim {st : Settings} {g : Backend} {job : Job} {c : Call} {f : Nat → Job}
    (h : Calls st g job c f) (k : Nat) :
    claimOf (f k) = claimOf job ∧ enrolled (f k) = enrolled job ∧
      committed (f k) = committed job ∧ ∀ c, f k ≠ .raised c := by
  cases h <;> exact ⟨rfl, rfl, rfl, nofun⟩

theorem passes_tidy {g : Backend} {o : Outcome} {job job' : Job} (h : Passes g o job job')
    (hstart : o ≠ .ok → launches job = false) :
    enrolled job' = enrolled job ∧ committed job' = committed job ∧ ∀ c, job' ≠ .raised c := by
  cases h with
  | unbuilt _ _ ho | unlaunched _ _ ho => simp [launches] at hstart; exact absurd hstart ho
  | _ => exact ⟨rfl, rfl, nofun⟩

theorem tidy_frame {s : System} {k : Nat} {job job' : Job} {g : Backend} (hbook : Meets booked s)
    (h : Meets tidy s) (hk : s.threads[k]? = some job) (hlen : g.runs.length = s.shared.runs.length)
    (hclaim : claimOf job' = claimOf job)
    (henrolled : enrolled job' = false → enrolled job = false)
    (hcommitted : committed job' = false → committed job = false)
    (hworkers : ∀ r ∈ g.workers, r ∈ s.shared.workers ∨
      enrolled job' = true ∧ ∃ c, claimOf job = some c ∧ c.runId = r)
    (hrows : ∀ row ∈ g.sandboxes, (∃ old ∈ s.shared.sandboxes, old.id = row.id) ∨
      committed job' = true ∧ ∃ c, claimOf job = some c ∧ c.made = some row.id)
    (hruns : ∀ r, (s.shared.runs[r]?).map (·.status) = some (.ended .error) →
      (g.runs[r]?).map (·.status) = some (.ended .error) ∨ ∃ c, claimOf job = some c ∧ c.runId = r)
    (hactive : ∀ r, s.shared.active r = none →
      g.active r = none ∨ ∃ c, claimOf job = some c ∧ c.runId = r)
    (hraised : ∀ c, job' = .raised c → (g.runs[c.runId]?).map (·.status) = some (.ended .error) ∧
      g.active c.runId = none) :
    Meets tidy ⟨g, s.threads.set k job'⟩ := by
  refine h.move hk (fun r hr => ?_)
    (fun c hc => ⟨fun he hr => ?_, fun hcom sid hm row hrow hid => ?_, ?_⟩)
    (fun j a hjk hj ha htwo => ⟨fun c hc => ?_, fun c d sid hc => htwo c d sid (hclaim ▸ hc)⟩)
  · rw [hlen]
    rcases hworkers r hr with hold | ⟨-, c, hc, rfl⟩
    · exact h.whole r hold
    · obtain ⟨⟨row, hrow, -⟩, -⟩ := hbook.each k job hk c.runId c.conversationId (by simp [runOf, hc])
      exact (List.getElem?_eq_some_iff.mp hrow).choose
  · rw [hclaim] at hc
    rcases hworkers _ hr with hold | ⟨he', -⟩
    · exact (h.each k job hk c hc).1 (henrolled he) hold
    · simp [he] at he'
  · rw [hclaim] at hc
    rcases hrows row hrow with ⟨old, hold, he⟩ | ⟨hcom', -⟩
    · exact (h.each k job hk c hc).2.1 (hcommitted hcom) sid hm old hold (he.trans hid)
    · simp [hcom] at hcom'
  · exact hraised c
  · have hne : ∀ d, claimOf job = some d → d.runId ≠ c.runId :=
      fun d hd => runs_ne hbook (Ne.symm hjk) hk hj hd hc
    obtain ⟨hw, hr, hraise⟩ := ha c hc
    refine ⟨fun he hmem => ?_, fun hcom sid hm row hrow hid => ?_, fun hj' => ?_⟩
    · rcases hworkers _ hmem with hold | ⟨-, d, hd, hid⟩
      · exact hw he hold
      · exact hne d hd hid
    · rcases hrows row hrow with ⟨old, hold, he⟩ | ⟨-, d, hd, hmade⟩
      · exact hr hcom sid hm old hold (he.trans hid)
      · exact htwo d c row.id hd hc hmade (hid ▸ hm)
    · obtain ⟨hstatus, hnone⟩ := hraise hj'
      refine ⟨(hruns _ hstatus).resolve_right ?_, (hactive _ hnone).resolve_right ?_⟩ <;>
      · rintro ⟨d, hd, hid⟩
        exact hne d hd hid

theorem finish_status {g : Backend} {r r' : Nat} {v w : Verdict}
    (h : (g.runs[r]?).map (·.status) = some (.ended w)) :
    ((g.finish r' v).runs[r]?).map (·.status) = some (.ended w) ∨ r' = r := by
  by_cases he : r' = r
  · exact .inr he
  · left
    simpa [Backend.finish, List.getElem?_modify, he] using h

theorem finish_status_self {g : Backend} {r : Nat} {v : Verdict} {row : RunRow}
    (h : g.runs[r]? = some row) :
    ((g.finish r v).runs[r]?).map (·.status) = some (.ended v) := by
  simp [Backend.finish, h]

theorem setActive_none {g : Backend} {r r' : Nat} {a : Option ActiveRun} (h : g.active r = none) :
    (g.setActive r' a).active r = none ∨ r' = r := by
  by_cases he : r = r'
  · exact .inr he.symm
  · exact .inl (by simpa [Backend.setActive, he] using h)

theorem tidy_enrolled {s : System} {k : Nat} {job job' : Job} {g : Backend} (hbook : Meets booked s)
    (h : Meets tidy s) (hk : s.threads[k]? = some job) (hlen : g.runs.length = s.shared.runs.length)
    (hclaim : claimOf job' = claimOf job) (hin : enrolled job' = true)
    (hworkers : ∀ r ∈ g.workers, r ∈ s.shared.workers ∨ ∃ c, claimOf job = some c ∧ c.runId = r)
    (hrows : ∀ row ∈ g.sandboxes, ∃ old ∈ s.shared.sandboxes, old.id = row.id)
    (hruns : ∀ r, (s.shared.runs[r]?).map (·.status) = some (.ended .error) →
      (g.runs[r]?).map (·.status) = some (.ended .error) ∨ ∃ c, claimOf job = some c ∧ c.runId = r)
    (hactive : ∀ r, s.shared.active r = none →
      g.active r = none ∨ ∃ c, claimOf job = some c ∧ c.runId = r) :
    Meets tidy ⟨g, s.threads.set k job'⟩ := by
  have hcommit : committed job' = true := by
    cases job' <;> first | rfl | simp [enrolled] at hin
  refine tidy_frame hbook h hk hlen hclaim (fun hn => ?_) (fun hn => ?_)
    (fun r hr => (hworkers r hr).imp id fun hc => ⟨hin, hc⟩) (fun row hrow => .inl (hrows row hrow))
    hruns hactive fun c hj => ?_
  · simp [hin] at hn
  · simp [hcommit] at hn
  · subst hj
    simp [enrolled] at hin

theorem step_tidy {st : Settings} {s s' : System} {a : Controller.Act} (hbook : Meets booked s)
    (h : Meets tidy s) (hs : Starts s a) (hf : Finalizes s a)
    (hstep : Controller.step st s a = some s') : Meets tidy s' := by
  rcases step_cases hstep with ⟨q, rfl⟩ | ⟨k, o, job, g, job', rfl, hk, hm, rfl⟩ | ⟨act, r, -, -, rfl⟩
  · have hnone : claimOf q.job = none := by cases q <;> rfl
    refine h.arrive h.whole (by simp [tidy, hnone]) fun b _ hb => ⟨hb, ?_⟩
    intro c d sid hc
    simp [hnone] at hc
  · have hsame : ∀ row ∈ s.shared.sandboxes, ∃ old ∈ s.shared.sandboxes, old.id = row.id :=
      fun row hrow => ⟨row, hrow, rfl⟩
    have hrows : ∀ row ∈ s.shared.sandboxes, (∃ old ∈ s.shared.sandboxes, old.id = row.id) ∨
        committed job' = true ∧ ∃ c, claimOf job = some c ∧ c.made = some row.id :=
      fun row hrow => .inl (hsame row hrow)
    have hstart : o ≠ .ok → launches job = false := by
      intro ho
      cases o with
      | ok => exact absurd rfl ho
      | _ => exact hs job hk
    cases hm with
    | pass job job' hp =>
        obtain ⟨he, hc, hraise⟩ := passes_tidy hp hstart
        exact tidy_frame hbook h hk rfl (passes_claim hp) (fun hn => he ▸ hn) (fun hn => hc ▸ hn)
          (fun r => .inl) hrows (fun r => .inl) (fun r => .inl) fun c hj => absurd hj (hraise c)
    | call job c f g' hc hg =>
        obtain ⟨-, rfl⟩ := call_eq_some hg
        obtain ⟨hclaim, he, hcom, hraise⟩ := calls_claim hc s.shared.next
        exact tidy_frame hbook h hk rfl hclaim (fun hn => he ▸ hn) (fun hn => hcom ▸ hn)
          (fun r => .inl) hrows (fun r => .inl) (fun r => .inl) fun c hj => absurd hj (hraise c)
    | create c retired sid g' hg =>
        obtain ⟨hallowed, rfl⟩ := call_eq_some hg
        have hfresh : sid ∉ s.shared.runner.shared.named := by simpa [Call.allowed] using hallowed
        refine h.move hk h.whole (fun d hd => ?_) (fun j b hjk hj hb htwo => ⟨hb, ?_⟩)
        · cases hd
          refine ⟨fun _ => (h.each k _ hk c rfl).1 rfl, fun _ other hm row hrow hid => ?_, fun hj => by cases hj⟩
          cases hm
          exact hfresh (hbook.whole.2.2 sid row.conversationId (hid ▸ hbook.whole.2.1 row hrow))
        · intro d e other hd he hm hm'
          cases hd
          cases hm
          have hhome := (hbook.each j b hj e.runId e.conversationId (by simp [runOf, he])).2 sid
            (.inr (by simp [madeOf, he, hm']))
          exact hfresh (hbook.whole.2.2 sid e.conversationId hhome)
    | claim user conversation hb =>
        refine h.move hk (fun r hr => ?_) (fun d hd => ?_)
          (fun j b _ _ hb htwo => ⟨fun c hc => ?_, ?_⟩)
        · simp [Nat.lt_succ_of_lt (h.whole r hr)]
        · cases hd
          refine ⟨fun _ hr => Nat.lt_irrefl _ (h.whole _ hr), fun _ sid hm => ?_, fun hj => ?_⟩
          · cases hm
          · cases hj
        · obtain ⟨hw, hr, hraise⟩ := hb c hc
          refine ⟨hw, hr, fun hj => ⟨?_, (hraise hj).2⟩⟩
          have hstatus := (hraise hj).1
          obtain ⟨row, hrow, -⟩ := Option.map_eq_some_iff.mp hstatus
          rwa [List.getElem?_append_left (List.getElem?_eq_some_iff.mp hrow).choose]
        · intro c d sid hc _ hm
          cases hc
          cases hm
    | commit c retired sid =>
        refine tidy_frame hbook h hk rfl rfl (fun _ => rfl) (by simp [committed, enrolled])
          (fun r => .inl) (fun row hrow => ?_) (fun r => .inl) (fun r => .inl) (by simp)
        rcases List.mem_append.mp hrow with hold | hnew
        · exact .inl (strip_ids hold)
        · obtain ⟨new, hmade, rfl⟩ := List.mem_map.mp hnew
          exact .inr ⟨rfl, c, rfl, Option.mem_toList.mp hmade⟩
    | register c sid =>
        exact tidy_frame hbook h hk rfl rfl (fun _ => rfl) (by simp [committed])
          (fun r => .inl) hrows (fun r => .inl)
          (fun r hr => (setActive_none hr).imp id fun he => ⟨c, rfl, he⟩) (by simp)
    | enroll c sid =>
        refine tidy_enrolled hbook h hk rfl rfl rfl (fun r hr => ?_) hsame (fun r => .inl) (fun r => .inl)
        rcases mem_append_singleton.mp hr with hold | hnew
        · exact .inl hold
        · exact .inr ⟨c, rfl, hnew.symm⟩
    | launch c sid =>
        exact tidy_enrolled hbook h hk rfl rfl rfl (fun r => .inl) hsame (fun r => .inl) (fun r => .inl)
    | fail c ho =>
        have hlen : (s.shared.finish c.runId .error).runs.length = s.shared.runs.length := by
          simp [Backend.finish]
        refine tidy_frame hbook h hk hlen rfl (fun _ => rfl) (fun _ => rfl) (fun r => .inl) hrows
          (fun r hr => (finish_status hr).imp id fun he => ⟨c, rfl, he⟩)
          (fun r hr => (setActive_none hr).imp id fun he => ⟨c, rfl, he⟩) fun d hd => ?_
        cases hd
        obtain ⟨row, hrow, -⟩ := (hbook.each k _ hk c.runId c.conversationId rfl).1
        exact ⟨finish_status_self hrow, by simp [Backend.setActive]⟩
    | unfailed c ho =>
        cases o with
        | ok => exact absurd rfl ho
        | _ => cases hf _ hk
    | gone c sid =>
        exact tidy_enrolled hbook h hk rfl rfl rfl (fun r => .inl) (fun row => strip_ids) (fun r => .inl)
          (fun r => .inl)
    | finish c sid v =>
        exact tidy_enrolled hbook h hk (by simp [Backend.finish]) rfl rfl (fun r => .inl) hsame
          (fun r hr => (finish_status hr).imp id fun he => ⟨c, rfl, he⟩) (fun r => .inl)
    | close c sid =>
        exact tidy_enrolled hbook h hk rfl rfl rfl (fun r => .inl) hsame (fun r => .inl)
          (fun r hr => (setActive_none hr).imp id fun he => ⟨c, rfl, he⟩)
    | leave c sid =>
        exact tidy_enrolled hbook h hk rfl rfl rfl (fun r hr => .inl (List.mem_filter.mp hr).1)
          hsame (fun r => .inl) (fun r => .inl)
    | arm runId sid b hb =>
        refine tidy_frame hbook h hk rfl rfl (fun _ => rfl) (fun _ => rfl) (fun r => .inl) hrows
          (fun r => .inl) (fun r hr => .inl ?_) (by simp)
        refine (setActive_none hr).resolve_right ?_
        rintro rfl
        simp [hb] at hr
    | strip ids =>
        exact tidy_frame hbook h hk rfl rfl (fun _ => rfl) (fun _ => rfl) (fun r => .inl)
          (fun row hrow => .inl (strip_ids hrow)) (fun r => .inl) (fun r => .inl) (by simp)
    | drain =>
        exact tidy_frame hbook h hk rfl rfl (fun _ => rfl) (fun _ => rfl) (fun r => .inl) hrows
          (fun r => .inl) (fun r => .inl) (by simp)
  · exact ⟨h.whole, h.each, h.two⟩

theorem initial_tidy (clock : Int) : Meets tidy (System.initial clock) where
  whole := by simp [tidy, System.initial]
  each := by simp [System.initial]
  two := by simp [System.initial]

/-- How a `create` that has not raised with its sandbox in the map stands. -/
inductive Creating (g : Registry) (sid : Nat) : Thread → Prop
  | create (h : sid ∉ g.sandboxes) : Creating g sid (.create sid)
  | spawn : Creating g sid (.spawn sid)
  | adopt (t : Nat) : Creating g sid (.adopt sid t)
  | drain : Creating g sid (.drain sid)
  | done : Creating g sid (.returned .done)
  | raised (a : Answer) (h : sid ∉ g.sandboxes) : Creating g sid (.returned a)

theorem move_creating {g g' : Registry} {reply : Reply} {th th' : Thread} {sid : Nat}
    (hm : Move g reply th g' th') (h : Creating g sid th)
    (hdrain : reply = .raises → drains th = false) : Creating g' sid th' := by
  cases h with
  | create hno =>
      cases hm with
      | read _ _ hr =>
          cases hr
          exact .raised _ hno
      | enter => exact .spawn
  | spawn =>
      cases hm with
      | read _ _ hr =>
          cases hr
          exact .done
      | spawn => exact .adopt _
  | adopt t =>
      cases hm with
      | read _ _ hr => cases hr
      | adopt => exact .drain
  | drain =>
      cases hm with
      | read _ _ hr =>
          cases hr with
          | drained => exact .done
          | drainFails _ h => simp [drains] at hdrain; exact absurd h hdrain
  | done | raised =>
      cases hm with
      | read _ _ hr => cases hr

theorem Creating.of_absent {g g' : Registry} {sid : Nat} {th : Thread} (h : Creating g sid th)
    (hgone : sid ∉ g.sandboxes → sid ∉ g'.sandboxes) : Creating g' sid th := by
  cases h with
  | create hno => exact .create (hgone hno)
  | raised a hno => exact .raised a (hgone hno)
  | spawn => exact .spawn
  | adopt t => exact .adopt t
  | drain => exact .drain
  | done => exact .done

/-- What a `start_run` that fails has done about the sandbox made for it. -/
def Undone (r : Resident.State) : Job → Prop
  | .ensuring c | .probing c _ _ | .retiring c _ | .making c _ => c.made = none
  | .creating _ _ sid k => ∃ th, r.threads[k]? = some th ∧ Creating r.shared sid th
  | .flushing c _ sid => c.made = some sid
  | .undoing c spawned =>
      ∀ sid, c.made = some sid → spawned = some sid ∨ sid ∉ r.shared.sandboxes
  | .destroying c k => ∀ sid, c.made = some sid →
      r.threads[k]? = some (.destroy sid) ∨ sid ∉ r.shared.sandboxes
  | .failing c | .raised c => ∀ sid, c.made = some sid → sid ∉ r.shared.sandboxes
  | _ => True

theorem passes_undone {s : System} {o : Outcome} {job job' : Job} (hacq : Acquainted s)
    (hmem : job ∈ s.threads) (h : Undone s.shared.runner job) (hp : Passes s.shared o job job')
    (hstart : o ≠ .ok → launches job = false) : Undone s.shared.runner job' := by
  cases hp with
  | created c retired sid k ha => exact (hacq.making c retired sid k hmem).1
  | uncreated c retired sid k a ha hne =>
      obtain ⟨hmade, -⟩ := hacq.making c retired sid k hmem
      obtain ⟨th, hk, hc⟩ := h
      intro sid' hsid'
      cases hmade.symm.trans hsid'
      cases (answer_eq_some.mp ha).symm.trans hk
      cases hc with
      | done => exact absurd rfl hne
      | raised _ hno => exact .inr hno
  | unflushed c retired sid => exact fun sid' hsid' => .inl (h.symm.trans hsid')
  | uncommitted c retired sid => exact fun sid' hsid' => .inl hsid'
  | unqueried c | unretired c sid => exact fun sid' hsid' => .inl (h.symm.trans hsid')
  | sandboxless c | dead c sid | retired c sid => exact h
  | nothingSpawned c => exact fun sid hsid => (h sid hsid).resolve_left nofun
  | destroyed c k a ha =>
      intro sid hsid
      refine (h sid hsid).resolve_left fun hk => ?_
      cases (answer_eq_some.mp ha).symm.trans hk
  | unbuilt _ _ ho | unlaunched _ _ ho => simp [launches] at hstart; exact absurd hstart ho
  | _ => trivial

theorem undone_of_kept {r r' : Resident.State} {job : Job} (h : Undone r job)
    (hthreads : ∀ (k : Nat) (th : Thread), r.threads[k]? = some th → r'.threads[k]? = some th)
    (hgone : ∀ sid, sid ∉ r.shared.sandboxes → sid ∉ r'.shared.sandboxes) : Undone r' job := by
  cases job with
  | creating c retired sid k =>
      obtain ⟨th, hk, hc⟩ := h
      exact ⟨th, hthreads k th hk, hc.of_absent (hgone sid)⟩
  | undoing c spawned => exact fun sid hsid => (h sid hsid).imp id (hgone sid)
  | destroying c k => exact fun sid hsid => (h sid hsid).imp (hthreads k _) (hgone sid)
  | failing c | raised c => exact fun sid hsid => hgone sid (h sid hsid)
  | _ => exact h

theorem drive_undone {s : System} {r : Resident.State} {a : Resident.Act} {job : Job}
    (hacq : Acquainted s) (hjob : job ∈ s.threads) (h : Undone s.shared.runner job)
    (hdrain : ∀ (k : Nat) (th : Thread), a = .advance k .raises →
      s.shared.runner.threads[k]? = some th → drains th = false)
    (hr : Resident.step s.shared.runner a = some r) : Undone r job := by
  have hgone : ∀ sid ∈ knownTo job, sid ∉ s.shared.runner.shared.sandboxes →
      sid ∉ r.shared.sandboxes := fun sid hsid hno => step_absent (hacq.jobs job hjob sid hsid) hno hr
  cases job with
  | creating c retired sid k =>
      obtain ⟨th, hk, hc⟩ := h
      obtain ⟨-, -, -, honly⟩ := hacq.making c retired sid k hjob
      cases a with
      | tick now =>
          cases hr
          exact ⟨th, hk, hc.of_absent id⟩
      | call call =>
          obtain ⟨-, rfl⟩ := step_call hr
          have hlt := (List.getElem?_eq_some_iff.mp hk).choose
          exact ⟨th, (List.getElem?_append_left hlt).trans hk, hc.of_absent id⟩
      | advance m reply =>
          obtain ⟨th₀, g, th', hm, hmove, rfl⟩ := step_advance hr
          by_cases he : m = k
          · subst he
            cases hk.symm.trans hm
            refine ⟨th', List.getElem?_set_self (List.getElem?_eq_some_iff.mp hk).choose, ?_⟩
            refine move_creating hmove hc ?_
            rintro rfl
            exact hdrain m th rfl hk
          · refine ⟨th, (List.getElem?_set_ne he).trans hk, hc.of_absent fun hno hmem => ?_⟩
            rcases move_sandboxes hmove hmem with hold | rfl
            · exact hno hold
            · exact he (honly m _ hm rfl)
  | undoing c spawned =>
      intro sid hsid
      exact (h sid hsid).imp id (hgone sid (by simp [knownTo, hsid]))
  | destroying c k =>
      intro sid hsid
      have hknown := hgone sid (by simp [knownTo, madeOf, claimOf, hsid])
      rcases h sid hsid with hk | hno
      · rcases step_thread hr hk with hsame | ⟨reply, g, th', rfl, hm, rfl, hk'⟩
        · exact .inl hsame
        · cases hm with
          | read _ _ hread => cases hread
          | destroy => exact .inr fun hmem => (detach_sandboxes.mp hmem).2 rfl
      · exact .inr (hknown hno)
  | failing c | raised c =>
      intro sid hsid
      exact hgone sid (by simp [knownTo, madeOf, claimOf, hsid]) (h sid hsid)
  | _ => exact h

theorem step_undone {st : Settings} {s s' : System} {a : Controller.Act}
    (hres : Meets reserved s.shared.runner) (hacq : Acquainted s)
    (h : ∀ job ∈ s.threads, Undone s.shared.runner job) (hs : Starts s a)
    (hstep : Controller.step st s a = some s') :
    ∀ job ∈ s'.threads, Undone s'.shared.runner job := by
  rcases step_cases hstep with ⟨q, rfl⟩ | ⟨k, o, job, g, job', rfl, hk, hm, rfl⟩ |
    ⟨act, r, hact, hr, rfl⟩
  · intro b hb
    rcases mem_append_singleton.mp hb with hold | rfl
    · exact h b hold
    · cases q <;> trivial
  · obtain ⟨hkeep, -, named, hshared⟩ := moves_still hm
    have hgone : ∀ sid, sid ∉ s.shared.runner.shared.sandboxes →
        sid ∉ g.runner.shared.sandboxes := by
      intro sid hno
      rw [hshared]
      exact hno
    have hjob := List.mem_of_getElem? hk
    intro b hb
    rcases List.mem_or_eq_of_mem_set hb with hold | rfl
    · exact undone_of_kept (h b hold) hkeep hgone
    · have hmine := h job hjob
      cases hm with
      | pass _ _ hp =>
          refine passes_undone (s := s) hacq hjob hmine hp fun ho => ?_
          cases o with
          | ok => exact absurd rfl ho
          | _ => exact hs job hk
      | call _ c f g' hc hg =>
          obtain ⟨-, rfl⟩ := call_eq_some hg
          cases hc with
          | «exists» => exact hmine
          | destroy c sid =>
              intro other hother
              rcases hmine other hother with he | hno
              · cases he
                exact .inl List.getElem?_concat_length
              · exact .inr (hgone other hno)
          | _ => trivial
      | create c retired sid g' hg =>
          obtain ⟨hallowed, rfl⟩ := call_eq_some hg
          have hfresh : sid ∉ s.shared.runner.shared.named := by
            simpa [Call.allowed] using hallowed
          refine ⟨_, List.getElem?_concat_length, .create fun hmem => ?_⟩
          exact hfresh (hres.whole sid hmem)
      | claim => rfl
      | fail | unfailed => exact hmine
      | _ => trivial
  · intro b hb
    refine drive_undone hacq hb (h b hb) (fun k th he hk => ?_) hr
    subst he
    cases a with
    | runner i reply =>
        cases hact
        exact hs th hk
    | _ => simp [Act.drives] at hact

structure Failing (s : System) : Prop where
  reserved : Meets reserved s.shared.runner
  booked : Meets booked s
  acquainted : Acquainted s
  tidy : Meets tidy s
  undone : ∀ job ∈ s.threads, Undone s.shared.runner job

theorem step_failing {st : Settings} {s s' : System} {a : Controller.Act} (h : Failing s)
    (hs : Finalizes s a ∧ Starts s a) (hstep : Controller.step st s a = some s') : Failing s' where
  reserved := step_runner_invariant (fun _ _ _ => step_reserved) h.reserved hstep
  booked := step_booked h.booked hstep
  acquainted := step_acquainted h.reserved h.acquainted hstep
  tidy := step_tidy h.booked h.tidy hs.2 hs.1 hstep
  undone := step_undone h.reserved h.acquainted h.undone hs.2 hstep

theorem initial_failing (clock : Int) : Failing (System.initial clock) where
  reserved := initial_reserved clock []
  booked := initial_booked clock
  acquainted := initial_acquainted clock
  tidy := initial_tidy clock
  undone := by simp [System.initial]

theorem failsClean_of_failing {s : System} (h : Failing s) : FailsClean s := by
  intro c hc
  obtain ⟨k, hk⟩ := List.getElem?_of_mem hc
  obtain ⟨hworkers, hrows, hraised⟩ := h.tidy.each k _ hk c rfl
  obtain ⟨hstatus, hactive⟩ := hraised rfl
  exact
    { row := hstatus
      active := hactive
      workers := hworkers rfl
      runner := h.undone _ hc
      rows := fun sid hmade row hrow he => absurd he (hrows rfl sid hmade row hrow) }

/-- A `start_run` fails cleanly in a run whose threads all start. -/
theorem failsClean_of_starts (st : Settings) (clock : Int) (acts : List Controller.Act)
    (h : EachStep (Controller.step st) (fun s a => Finalizes s a ∧ Starts s a)
      (System.initial clock) acts) :
    Always (Controller.step st) FailsClean (System.initial clock) acts :=
  always_of_eachStep (J := Failing) (fun _ => failsClean_of_failing) (fun _ _ _ => step_failing)
    (initial_failing clock) h

def unflushed : List Controller.Act :=
  [Act.request (.start 0 0)] ++ List.replicate 4 (Act.job 0 .ok) ++ [Act.job 0 (.fresh 0)] ++
    List.replicate 4 (Act.runner 0 .ok) ++ [Act.job 0 .ok, .job 0 .fails, .job 0 .ok, .runner 1 .ok,
      .runner 1 .ok, .job 0 .ok, .job 0 .ok]

theorem failsClean_of_starts_unflushed :
    EachStep (Controller.step ⟨5, 10⟩) (fun s a => Finalizes s a ∧ Starts s a)
        (System.initial 0) unflushed ∧
      Always (Controller.step ⟨5, 10⟩) FailsClean (System.initial 0) unflushed := by
  have h : EachStep (Controller.step ⟨5, 10⟩) (fun s a => Finalizes s a ∧ Starts s a)
      (System.initial 0) unflushed := by decide
  exact ⟨h, failsClean_of_starts ⟨5, 10⟩ 0 unflushed h⟩

/-- The thread of a worker does not start. -/
theorem not_failsClean_threadless :
    ¬ ∀ (st : Settings) (clock : Int) (acts : List Controller.Act),
      EachStep (Controller.step st) Finalizes (System.initial clock) acts →
        Always (Controller.step st) FailsClean (System.initial clock) acts := by
  intro h
  let acts : List Controller.Act := [Act.request (.start 0 0)] ++
    List.replicate 4 (Act.job 0 .ok) ++ [Act.job 0 (.fresh 0)] ++
    List.replicate 4 (Act.runner 0 .ok) ++ List.replicate 5 (Act.job 0 .ok) ++ [Act.job 0 .fails]
  obtain ⟨s, hr, hjob, hactive⟩ : ∃ s,
      run (Controller.step ⟨5, 10⟩) (System.initial 0) acts = some s ∧
        s.threads[0]? = some (.raised ⟨0, 0, 0, some 0⟩) ∧
          s.shared.active 0 = some ⟨0, false⟩ := ⟨_, rfl, rfl, rfl⟩
  have hclean := (h ⟨5, 10⟩ 0 acts (by decide)).final hr _ (List.mem_of_getElem? hjob)
  cases hactive.symm.trans hclean.active

end AgentWeb.StartFailure
