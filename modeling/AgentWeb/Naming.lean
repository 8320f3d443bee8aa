import AgentWeb.Bookings

namespace AgentWeb.Naming

open Transitions Interleaving Resident ExecLock Controller Bookings

/-- The sandbox has been named and no `create` is at work on it. -/
def Known (r : Resident.State) (sid : Nat) : Prop :=
  sid ∈ r.shared.named ∧ ∀ th ∈ r.threads, th.creates ≠ some sid

/-- Call `k` is the only one that may be creating the sandbox. -/
def Making (r : Resident.State) (sid k : Nat) : Prop :=
  sid ∈ r.shared.named ∧ (∃ th, r.threads[k]? = some th) ∧
    ∀ (j : Nat) (th : Thread), r.threads[j]? = some th → th.creates = some sid → j = k

theorem step_making {r r' : Resident.State} {a : Resident.Act} {sid k : Nat} (h : Making r sid k)
    (hstep : Resident.step r a = some r') : Making r' sid k := by
  obtain ⟨hnamed, ⟨th₀, hk₀⟩, honly⟩ := h
  refine ⟨step_named hstep hnamed, ?_⟩
  cases a with
  | tick now =>
      cases hstep
      exact ⟨⟨th₀, hk₀⟩, honly⟩
  | call c =>
      obtain ⟨hallowed, rfl⟩ := step_call hstep
      refine ⟨⟨th₀, ?_⟩, fun j th hj hc => ?_⟩
      · exact (List.getElem?_append_left (List.getElem?_eq_some_iff.mp hk₀).choose).trans hk₀
      · rcases getElem?_append_cases hj with ⟨-, rfl⟩ | hj
        · rcases call_creates c with hnone | ⟨new, rfl⟩
          · simp [hnone] at hc
          · cases hc
            simp [Call.allowed, hnamed] at hallowed
        · exact honly j th hj hc
  | advance m reply =>
      obtain ⟨th, g, th', hm, hmove, rfl⟩ := step_advance hstep
      refine ⟨?_, fun j a hj hc => ?_⟩
      · by_cases hmk : m = k
        · subst hmk
          exact ⟨th', List.getElem?_set_self (List.getElem?_eq_some_iff.mp hm).choose⟩
        · exact ⟨th₀, (List.getElem?_set_ne hmk).trans hk₀⟩
      · rcases getElem?_set_cases hj with ⟨rfl, rfl⟩ | ⟨-, hj⟩
        · rcases move_creates hmove with he | he
          · exact honly j th hm (he ▸ hc)
          · simp [he] at hc
        · exact honly j a hj hc

theorem step_known {r r' : Resident.State} {a : Resident.Act} {sid : Nat} (h : Known r sid)
    (hstep : Resident.step r a = some r') : Known r' sid := by
  refine ⟨step_named hstep h.1, fun th hth hc => ?_⟩
  cases a with
  | tick now =>
      cases hstep
      exact h.2 th hth hc
  | call c =>
      obtain ⟨hallowed, rfl⟩ := step_call hstep
      rcases mem_append_singleton.mp hth with hold | rfl
      · exact h.2 th hold hc
      · rcases call_creates c with hnone | ⟨new, rfl⟩
        · simp [hnone] at hc
        · cases hc
          simp [Call.allowed, h.1] at hallowed
  | advance m reply =>
      obtain ⟨th₀, g, th', hm, hmove, rfl⟩ := step_advance hstep
      rcases List.mem_or_eq_of_mem_set hth with hold | rfl
      · exact h.2 th hold hc
      · rcases move_creates hmove with he | he
        · exact h.2 th₀ (List.mem_of_getElem? hm) (he ▸ hc)
        · simp [he] at hc

theorem step_absent {r r' : Resident.State} {a : Resident.Act} {sid : Nat} (h : Known r sid)
    (hgone : sid ∉ r.shared.sandboxes) (hstep : Resident.step r a = some r') :
    sid ∉ r'.shared.sandboxes := by
  intro hmem
  cases a with
  | tick now =>
      cases hstep
      exact hgone hmem
  | call c =>
      obtain ⟨-, rfl⟩ := step_call hstep
      exact hgone hmem
  | advance m reply =>
      obtain ⟨th, g, th', hm, hmove, rfl⟩ := step_advance hstep
      rcases move_sandboxes hmove hmem with hold | rfl
      · exact hgone hold
      · exact h.2 _ (List.mem_of_getElem? hm) rfl

theorem known_of_making {r : Resident.State} {sid k : Nat} {a : Answer} (h : Making r sid k)
    (hk : r.threads[k]? = some (.returned a)) : Known r sid := by
  refine ⟨h.1, fun th hth hc => ?_⟩
  obtain ⟨j, hj⟩ := List.getElem?_of_mem hth
  cases h.2.2 j th hj hc
  cases hk.symm.trans hj
  simp [Thread.creates] at hc

theorem known_allowed {r : Resident.State} {sid : Nat} {c : Call} (h : Known r sid)
    (hc : c.sandboxId = some sid) (hne : c.thread.creates = none) : c.allowed r = true := by
  cases c with
  | create new => simp [Call.thread, Thread.creates] at hne
  | reapIdle ttl => simp [Call.sandboxId] at hc
  | _ =>
      cases hc
      simpa [Call.allowed, Call.sandboxId] using h.2

def knownTo : Job → List Nat
  | .creating _ _ _ _ => []
  | .undoing c spawned => spawned.toList ++ c.made.toList
  | .marking _ sid | .sending _ _ sid | .sent _ _ sid _ | .arming _ sid | .waking _ sid
  | .watching _ sid _ | .escalating _ sid _ => [sid]
  | job => (sandboxOf job).toList ++ (madeOf job).toList

structure Acquainted (s : System) : Prop where
  rows : ∀ row ∈ s.shared.sandboxes, Known s.shared.runner row.id
  active : ∀ r a, s.shared.active r = some a → Known s.shared.runner a.sandboxId
  jobs : ∀ job ∈ s.threads, ∀ sid ∈ knownTo job, Known s.shared.runner sid
  making : ∀ c retired sid k, .creating c retired sid k ∈ s.threads →
    c.made = some sid ∧ Making s.shared.runner sid k

theorem passes_knownTo {g : Backend} {o : Outcome} {job job' : Job} (h : Passes g o job job')
    {sid : Nat} (hsid : sid ∈ knownTo job') :
    sid ∈ knownTo job ∨ (∃ r a, g.active r = some a ∧ a.sandboxId = sid) ∨
      ∃ c retired new k a, job = .creating c retired new k ∧ g.answer k = some a ∧
        (sid = new ∨ c.made = some sid) := by
  cases h with
  | created c retired new k ha =>
      refine .inr (.inr ⟨c, retired, new, k, _, rfl, ha, ?_⟩)
      simpa [knownTo, sandboxOf, madeOf, claimOf, eq_comm] using hsid
  | uncreated c retired new k a ha =>
      refine .inr (.inr ⟨c, retired, new, k, a, rfl, ha, .inr ?_⟩)
      simpa [knownTo] using hsid
  | cancel r a ha | ask _ r a ha =>
      refine .inr (.inl ⟨r, a, ha, ?_⟩)
      simpa [knownTo, eq_comm] using hsid
  | _ =>
      refine .inl ?_
      simp_all [knownTo, sandboxOf, madeOf, claimOf]

theorem calls_knownTo {st : Settings} {g : Backend} {job : Job} {c : Call} {f : Nat → Job}
    (h : Calls st g job c f) {k sid : Nat} (hsid : sid ∈ knownTo (f k)) :
    sid ∈ knownTo job ∨ ∃ row ∈ g.sandboxes, row.id = sid := by
  cases h with
  | «exists» claim row hrow =>
      simp only [knownTo, sandboxOf, madeOf, claimOf, Option.toList_some, Option.bind_some,
        List.mem_append, List.mem_singleton] at hsid
      rcases hsid with rfl | hmade
      · exact .inr ⟨row, (List.mem_filter.mp hrow).1, rfl⟩
      · exact .inl (by simpa [knownTo, sandboxOf, madeOf, claimOf] using hmade)
  | _ => exact .inl (by simp_all [knownTo, sandboxOf, madeOf, claimOf])

theorem calls_sandboxId {st : Settings} {g : Backend} {job : Job} {c : Call} {f : Nat → Job}
    (h : Calls st g job c f) : c.thread.creates = none ∧ ∀ sid, c.sandboxId = some sid →
      sid ∈ knownTo job ∨ ∃ row ∈ g.sandboxes, row.id = sid := by
  cases h with
  | «exists» claim row hrow =>
      refine ⟨rfl, fun sid hsid => .inr ⟨row, (List.mem_filter.mp hrow).1, ?_⟩⟩
      simpa [Call.sandboxId] using hsid
  | reapIdle => exact ⟨rfl, of_none rfl⟩
  | _ =>
      refine ⟨rfl, fun sid hsid => .inl ?_⟩
      cases hsid
      simp [knownTo, sandboxOf]

/-- No call of a job is turned away. -/
theorem calls_allowed {st : Settings} {s : System} {job : Job} {c : Call} {f : Nat → Job}
    (h : Acquainted s) (hjob : job ∈ s.threads) (hc : Calls st s.shared job c f) :
    c.allowed s.shared.runner = true := by
  obtain ⟨hnone, hknown⟩ := calls_sandboxId hc
  cases hsid : c.sandboxId with
  | none =>
      cases c with
      | reapIdle ttl => simp [Call.allowed, Call.sandboxId]
      | _ => simp [Call.sandboxId] at hsid
  | some sid =>
      rcases hknown sid hsid with hk | ⟨row, hrow, rfl⟩
      · exact known_allowed (h.jobs job hjob sid hk) hsid hnone
      · exact known_allowed (h.rows row hrow) hsid hnone

theorem acquainted_frame {s : System} {k : Nat} {job job' : Job} {g : Backend} (h : Acquainted s)
    (hk : s.threads[k]? = some job)
    (hrunner : g.runner = s.shared.runner ∨ ∃ c, Resident.step s.shared.runner (.call c) = some g.runner)
    (hrows : ∀ row ∈ g.sandboxes, (∃ old ∈ s.shared.sandboxes, old.id = row.id) ∨
      row.id ∈ knownTo job)
    (hactive : ∀ r a, g.active r = some a →
      (∃ a', s.shared.active r = some a' ∧ a'.sandboxId = a.sandboxId) ∨ a.sandboxId ∈ knownTo job)
    (hjob : ∀ sid ∈ knownTo job', sid ∈ knownTo job ∨ Known s.shared.runner sid)
    (hmaking : ∀ c retired sid j, job' = .creating c retired sid j →
      c.made = some sid ∧ Making g.runner sid j) : Acquainted ⟨g, s.threads.set k job'⟩ := by
  have hkeep : ∀ sid, Known s.shared.runner sid → Known g.runner sid := by
    intro sid hsid
    rcases hrunner with he | ⟨c, hc⟩
    · rwa [he]
    · exact step_known hsid hc
  have hmine : ∀ sid ∈ knownTo job, Known s.shared.runner sid :=
    h.jobs job (List.mem_of_getElem? hk)
  refine ⟨fun row hrow => hkeep _ ?_, fun r a ha => hkeep _ ?_, fun b hb sid hsid => hkeep _ ?_,
    fun c retired sid j hmem => ?_⟩
  · rcases hrows row hrow with ⟨old, hold, he⟩ | hmem
    · exact he ▸ h.rows old hold
    · exact hmine _ hmem
  · rcases hactive r a ha with ⟨a', ha', he⟩ | hmem
    · exact he ▸ h.active r a' ha'
    · exact hmine _ hmem
  · rcases List.mem_or_eq_of_mem_set hb with hold | rfl
    · exact h.jobs b hold sid hsid
    · exact (hjob sid hsid).elim (hmine sid) id
  · rcases List.mem_or_eq_of_mem_set hmem with hold | rfl
    · obtain ⟨hmade, hmk⟩ := h.making c retired sid j hold
      refine ⟨hmade, ?_⟩
      rcases hrunner with he | ⟨call, hc⟩
      · rwa [he]
      · exact step_making hmk hc
    · exact hmaking c retired sid j rfl

theorem setActive_cases {g : Backend} {r r' : Nat} {new : Option ActiveRun} {a : ActiveRun}
    (h : (g.setActive r' new).active r = some a) : r = r' ∧ new = some a ∨ g.active r = some a := by
  by_cases he : r = r'
  · subst he
    exact .inl ⟨rfl, by simpa [Backend.setActive] using h⟩
  · exact .inr (by simpa [Backend.setActive, he] using h)

theorem active_of_closed {g : Backend} {r r' : Nat} {a : ActiveRun}
    (h : (g.setActive r' none).active r = some a) : g.active r = some a := by
  rcases setActive_cases h with ⟨-, hno⟩ | hold
  · cases hno
  · exact hold

theorem step_acquainted {st : Settings} {s s' : System} {a : Controller.Act}
    (hres : Meets reserved s.shared.runner) (h : Acquainted s)
    (hstep : Controller.step st s a = some s') : Acquainted s' := by
  rcases step_cases hstep with ⟨q, rfl⟩ | ⟨k, o, job, g, job', -, hk, hm, rfl⟩ | ⟨act, r, -, hr, rfl⟩
  · have hnone : knownTo q.job = [] := by cases q <;> rfl
    refine ⟨h.rows, h.active, fun job hjob sid hsid => ?_, fun c retired sid j hmem => ?_⟩
    · rcases mem_append_singleton.mp hjob with hold | rfl
      · exact h.jobs job hold sid hsid
      · rw [hnone] at hsid
        simp at hsid
    · rcases List.mem_append.mp hmem with hold | hnew
      · exact h.making c retired sid j hold
      · cases q <;> simp [Request.job] at hnew
  · have hrows : ∀ row ∈ s.shared.sandboxes, (∃ old ∈ s.shared.sandboxes, old.id = row.id) ∨
        row.id ∈ knownTo job := fun row hrow => .inl ⟨row, hrow, rfl⟩
    have hstrip : ∀ ids, ∀ row ∈ (s.shared.strip ids).sandboxes,
        ∃ old ∈ s.shared.sandboxes, old.id = row.id := fun _ _ => strip_ids
    have hactive : ∀ r a, s.shared.active r = some a →
        (∃ a', s.shared.active r = some a' ∧ a'.sandboxId = a.sandboxId) ∨
          a.sandboxId ∈ knownTo job := fun r a ha => .inl ⟨a, ha, rfl⟩
    have hclosed : ∀ r', ∀ r a, (s.shared.setActive r' none).active r = some a →
        (∃ a', s.shared.active r = some a' ∧ a'.sandboxId = a.sandboxId) ∨
          a.sandboxId ∈ knownTo job := fun r' r a ha => hactive r a (active_of_closed ha)
    cases hm with
    | pass job job' hp =>
        refine acquainted_frame h hk (.inl rfl) hrows hactive (fun sid hsid => ?_) ?_
        · rcases passes_knownTo hp hsid with hold | ⟨r, b, hb, rfl⟩ |
            ⟨c, retired, new, j, answer, rfl, hans, hsid⟩
          · exact .inl hold
          · exact .inr (h.active r b hb)
          · obtain ⟨hmade, hmk⟩ := h.making c retired new j (List.mem_of_getElem? hk)
            have he : sid = new := by
              rcases hsid with rfl | hsid
              · rfl
              · exact Option.some.inj (hsid.symm.trans hmade)
            exact .inr (he ▸ known_of_making hmk (answer_eq_some.mp hans))
        · rintro c retired sid j rfl
          cases hp
    | call job c f g' hc hg =>
        obtain ⟨r, hr, rfl⟩ := Option.map_eq_some_iff.mp hg
        refine acquainted_frame h hk (.inr ⟨c, hr⟩) hrows hactive (fun sid hsid => ?_) ?_
        · rcases calls_knownTo hc hsid with hold | ⟨row, hrow, rfl⟩
          · exact .inl hold
          · exact .inr (h.rows row hrow)
        · intro c retired sid j he
          cases hc <;> cases he
    | create c retired sid g' hg =>
        obtain ⟨r, hr, rfl⟩ := Option.map_eq_some_iff.mp hg
        obtain ⟨hallowed, rfl⟩ := step_call hr
        refine acquainted_frame h hk (.inr ⟨_, hr⟩) hrows hactive (List.forall_mem_nil _) ?_
        rintro c' retired' sid' j ⟨⟩
        have hfresh : sid ∉ s.shared.runner.shared.named := by simpa [Call.allowed] using hallowed
        refine ⟨rfl, ?_, ⟨_, List.getElem?_concat_length⟩, fun j th hj hc => ?_⟩
        · exact List.mem_append_right _ (by simp [Call.sandboxId])
        · rcases getElem?_append_cases hj with ⟨rfl, -⟩ | hj
          · rfl
          · exact absurd (hres.each j th hj sid (.inl hc)) hfresh
    | claim user conversation hb =>
        exact acquainted_frame h hk (.inl rfl) hrows hactive (by simp [knownTo, sandboxOf, madeOf, claimOf]) (by simp)
    | commit c retired sid =>
        refine acquainted_frame h hk (.inl rfl) (fun row hrow => ?_) hactive (fun _ => .inl) (by simp)
        rcases List.mem_append.mp hrow with hold | hnew
        · exact .inl (hstrip _ row hold)
        · obtain ⟨new, hmade, rfl⟩ := List.mem_map.mp hnew
          exact .inr (by simpa [knownTo, madeOf, claimOf] using .inr (Option.mem_toList.mp hmade))
    | register c sid =>
        refine acquainted_frame h hk (.inl rfl) hrows (fun r a ha => ?_) (fun _ => .inl) (by simp)
        rcases setActive_cases ha with ⟨-, hnew⟩ | hold
        · cases hnew
          exact .inr (by simp [knownTo, sandboxOf])
        · exact hactive r a hold
    | arm runId sid a ha =>
        refine acquainted_frame h hk (.inl rfl) hrows (fun r b hb => ?_) (fun _ => .inl) (by simp)
        rcases setActive_cases hb with ⟨rfl, hnew⟩ | hold
        · cases hnew
          exact .inl ⟨a, ha, rfl⟩
        · exact hactive r b hold
    | fail c | unfailed c =>
        refine acquainted_frame h hk (.inl rfl) hrows (hclosed c.runId) (fun sid hsid => .inl ?_) (by simp)
        exact hsid
    | close c sid => exact acquainted_frame h hk (.inl rfl) hrows (hclosed c.runId) (fun _ => .inl) (by simp)
    | gone c sid =>
        exact acquainted_frame h hk (.inl rfl) (fun row hrow => .inl (hstrip _ row hrow)) hactive
          (fun _ => .inl) (by simp)
    | strip ids =>
        exact acquainted_frame h hk (.inl rfl) (fun row hrow => .inl (hstrip _ row hrow)) hactive
          (List.forall_mem_nil _) (by simp)
    | drain => exact acquainted_frame h hk (.inl rfl) hrows hactive (List.forall_mem_nil _) (by simp)
    | enroll | launch | finish | leave =>
        exact acquainted_frame h hk (.inl rfl) hrows hactive (fun _ => .inl) (by simp)
  · refine ⟨fun row hrow => step_known (h.rows row hrow) hr, fun i b hb => step_known (h.active i b hb) hr,
      fun job hjob sid hsid => step_known (h.jobs job hjob sid hsid) hr, fun c retired sid j hmem => ?_⟩
    obtain ⟨hmade, hmk⟩ := h.making c retired sid j hmem
    exact ⟨hmade, step_making hmk hr⟩

theorem initial_acquainted (clock : Int) : Acquainted (System.initial clock) where
  rows := by simp [System.initial]
  active := by simp [System.initial]
  jobs := by simp [System.initial]
  making := by simp [System.initial]

end AgentWeb.Naming
