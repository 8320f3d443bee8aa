import AgentWeb.InFlight
import Mathlib.Data.List.Dedup

namespace AgentWeb.KillSwitch

open PyText PyFloat PyJson Protocol Finish Noninterference Tables Tenants Background PrivateHandlers Writes
  Traces Integrity InFlight Relation

section Summary

variable [Interpreter] (settings : Settings) (p : Process) (draw : Draw)

end Summary

/-- The rows, the ids that were drawn, the requests that were let through the check of the
budget and have not claimed their conversation yet, and the workers with their instances. -/
structure Service where
  db : Database
  issued : List Str
  admitted : List (Str × Conversation)
  workers : List (Str × Str)

def Service.initial : Service := ⟨emptyDatabase, [str "cnv_orphaned"], [], []⟩

def launched (p : Process) : Except Tenants.Raised Run → List (Str × Str)
  | .ok run => [(run.id, p.instanceId)]
  | .error _ => []

/-- What happens in the service. An id is drawn once, and a run is billed `most` tokens at most.
A worker ends its run once, or goes with its instance. -/
inductive Step [Interpreter] (settings : Settings) (most : Int) (s : Service) : Service → Prop
  | request {p : Process} {draw : Draw} {userId : Str} {request : Request} (hnew : draw.id ∉ s.issued)
      (hstart : ∀ id prompt, request ≠ .startRun id prompt) :
      Step settings most s { s with
        db := perform settings s.db (.request p draw userId request), issued := draw.id :: s.issued }
  | allow {p : Process} {userId conversationId : Str} {conversation : Conversation}
      (h : (exec (allow settings p userId conversationId) { db := s.db }).1 = .ok conversation) :
      Step settings most s { s with admitted := (userId, conversation) :: s.admitted }
  | claim {p : Process} {draw : Draw} {userId prompt : Str} {conversation : Conversation}
      {before after : List (Str × Conversation)} {r : Except Tenants.Raised Run} {w : World}
      (hnew : draw.id ∉ s.issued) (hadmitted : s.admitted = before ++ (userId, conversation) :: after)
      (h : exec (claim settings p draw userId conversation prompt) { db := s.db } = (r, w)) :
      Step settings most s ⟨w.db, draw.id :: s.issued, before ++ after, launched p r ++ s.workers⟩
  | abandon {before after : List (Str × Conversation)} {request : Str × Conversation}
      (hadmitted : s.admitted = before ++ request :: after) :
      Step settings most s { s with admitted := before ++ after }
  | finish {p : Process} {draw : Draw} {active : Option Entry} {tokensTotal : Float64} {runId instanceId : Str}
      {outcome : RunOutcome} {before after : List (Str × Str)} (hbills : Bills outcome most)
      (hworkers : s.workers = before ++ (runId, instanceId) :: after) :
      Step settings most s { s with
        db := perform settings s.db (.finish p draw active tokensTotal runId outcome), workers := before ++ after }
  | restart {instanceId : Str} {now : Int} :
      Step settings most s { s with
        db := perform settings s.db (.reconcile instanceId now), workers := s.workers.filter (·.2 ≠ instanceId) }
  | register {p : Process} {draw : Draw} :
      Step settings most s { s with db := perform settings s.db (.register p draw) }
  | storeUpload {p : Process} {draw : Draw} {userId conversationId filename storedName : Str} {size : Nat}
      {path : Uploads.Path} :
      Step settings most s { s with
        db := perform settings s.db (.storeUpload p draw userId conversationId filename storedName size path) }
  | reap {destroyed : List Str} :
      Step settings most s { s with db := perform settings s.db (.reap destroyed) }

structure Sane (s : Service) : Prop where
  sound : Sound none s.db
  reserved : str "cnv_orphaned" ∈ s.issued
  orphan : ∀ c, s.db.conversations.get? "cnv_orphaned" = some c → Orphan c
  conversations : ∀ c ∈ s.db.conversations.rows, c.id ∈ s.issued
  runs : ∀ r ∈ s.db.runs.rows, r.id ∈ s.issued
  users : ∀ q ∈ s.admitted, ∃ u, s.db.users.get? q.1 = some u
  admitted : ∀ q ∈ s.admitted, q.2.id ∈ s.issued ∧ (q.2.id = str "cnv_orphaned" → q.1 = str "usr_orphaned") ∧
    ∀ c, s.db.conversations.get? q.2.id = some c → c.userId = q.1
  workers : ∀ w ∈ s.workers, w.1 ∈ s.issued ∧ ∀ run, s.db.runs.get? w.1 = some run →
    run.status = str "running" ∧ run.ownerInstance = some w.2
  alone : (s.workers.map (·.1)).Nodup

section Sane

variable {keep : Str → Bool} {fresh : Conversation → Prop} {s s' : Service}

theorem Sane.next (h : Sane s) (hs : Sound none s'.db) (hkept : Kept keep fresh s.db s'.db)
    (hissued : s.issued ⊆ s'.issued)
    (hfresh : ∀ c, fresh c → (c.id ∉ s.issued ∧ c.id ∈ s'.issued) ∨ Orphan c)
    (hruns : ∀ r ∈ s'.db.runs.rows, keep r.id = false → r.id ∈ s'.issued)
    (hadmitted : ∀ q ∈ s'.admitted, q ∈ s.admitted)
    (hworkers : ∀ w ∈ s'.workers, (w ∈ s.workers ∧ keep w.1 = true) ∨ (w.1 ∈ s'.issued ∧
      ∀ run, s'.db.runs.get? w.1 = some run → run.status = str "running" ∧ run.ownerInstance = some w.2))
    (halone : (s'.workers.map (·.1)).Nodup) : Sane s' where
  sound := hs
  reserved := hissued h.reserved
  orphan c hc := by
    obtain ⟨hmem, hid⟩ := Table.get?_eq_some.mp hc
    have hid : c.id = str "cnv_orphaned" := hid
    rcases hkept.conversation c hmem with hmem | hc
    · exact h.orphan c (Table.get?_eq_some.mpr ⟨hmem, hid⟩)
    · rcases hfresh c hc with ⟨hnew, -⟩ | hc
      · exact absurd (hid ▸ h.reserved) hnew
      · exact hc
  conversations c hc := by
    rcases hkept.conversation c hc with hc | hc
    · exact hissued (h.conversations c hc)
    · rcases hfresh c hc with ⟨-, hnew⟩ | hc
      · exact hnew
      · exact hc.1 ▸ hissued h.reserved
  runs r hr := by
    cases hkeep : keep r.id with
    | false => exact hruns r hr hkeep
    | true =>
        obtain ⟨old, hold, hid, -⟩ := hkept.run r hr hkeep
        exact hissued (hid ▸ h.runs old hold)
  users q hq := by
    obtain ⟨u, hu⟩ := h.users q (hadmitted q hq)
    exact ⟨u, hkept.known _ _ hu⟩
  admitted q hq := by
    obtain ⟨hid, horphan, howner⟩ := h.admitted q (hadmitted q hq)
    refine ⟨hissued hid, horphan, fun c hc => ?_⟩
    obtain ⟨hmem, hkey⟩ := Table.get?_eq_some.mp hc
    have hkey : c.id = q.2.id := hkey
    rcases hkept.conversation c hmem with hmem | hc
    · exact howner c (Table.get?_eq_some.mpr ⟨hmem, hkey⟩)
    · rcases hfresh c hc with ⟨hnew, -⟩ | hc
      · exact absurd (hkey ▸ hid) hnew
      · exact hc.2.trans (horphan (hkey.symm.trans hc.1)).symm
  workers w hw := by
    rcases hworkers w hw with ⟨hw, hkeep⟩ | hw
    · obtain ⟨hid, hrun⟩ := h.workers w hw
      refine ⟨hissued hid, fun run hrun' => ?_⟩
      obtain ⟨hmem, hkey⟩ := Table.get?_eq_some.mp hrun'
      have hkey : run.id = w.1 := hkey
      obtain ⟨old, hold, hid', hstatus, howner⟩ := hkept.run run hmem (hkey ▸ hkeep)
      rw [← hstatus, ← howner]
      exact hrun old (Table.get?_eq_some.mpr ⟨hold, hid'.trans hkey⟩)
    · exact hw
  alone := halone

end Sane

section Budget

variable {settings : Settings} {p : Process} {user : Str} {most : Int} {N A : Nat} {s s' : Service}

theorem keeps_enforceBudget {P : Database → Prop} (found : Option Ledger.User) :
    Keeps P (found.forM (enforceBudget settings)) fun _ db => P db ∧ ∀ u, found = some u →
      settings.budgetEnforce = true → consumed u.id db < Ledger.tokenBudget settings.budget u := by
  cases found with
  | none => exact .pure fun _ h => ⟨h, nofun⟩
  | some user =>
      change Keeps P (enforceBudget settings user) _
      unfold enforceBudget
      split
      · refine Traced.bind traced_select fun status => ?_
        split
        · exact .throw
        next hleft =>
          refine .pure fun db h => ⟨h.1, fun u hu _ => ?_⟩
          obtain rfl := Option.some.inj hu
          rw [h.2, budgetStatus_eq] at hleft
          exact not_le.mp hleft
      next hoff => exact .pure fun db h => ⟨h, fun u _ hon => absurd hon hoff⟩

theorem allow_spec {userId conversationId : Str} {conversation : Conversation} {db : Database}
    (h : (exec (allow settings p userId conversationId) { db }).1 = .ok conversation) :
    db.conversations.get? conversationId = some conversation ∧ conversation.userId = userId ∧
      ∀ u, db.users.get? userId = some u → settings.budgetEnforce = true →
        consumed userId db < Ledger.tokenBudget settings.budget u := by
  have htraced : Keeps (· = db) (allow settings p userId conversationId) fun c db' =>
      db' = db ∧ db.conversations.get? conversationId = some c ∧ c.userId = userId ∧
        ∀ u, db.users.get? userId = some u → settings.budgetEnforce = true →
          consumed userId db < Ledger.tokenBudget settings.budget u := by
    refine Traced.bind (Q := fun _ => (· = db)) ?_ fun _ => ?_
    · unfold limitRuns
      split
      · exact .throw
      · exact .pure fun _ h => h
    · refine Traced.bind (traced_getOwned _ conversationId _ _ _) fun c => Traced.bind traced_select fun found => ?_
      refine Traced.bind (keeps_enforceBudget found) fun _ => .pure fun db' h => ?_
      obtain ⟨⟨⟨rfl, hc, howner⟩, hfound⟩, hleft⟩ := h
      refine ⟨rfl, hc, howner, fun u hu henforce => ?_⟩
      obtain rfl : u.id = userId := Table.key_of_get? hu
      exact hleft u (hfound.trans hu) henforce
  rcases he : exec (allow settings p userId conversationId) { db } with ⟨r, w⟩
  rw [he] at h
  obtain rfl : r = .ok conversation := h
  exact (htraced.post { db } rfl conversation w he).2

def admittedOf (user : Str) (s : Service) : Nat := s.admitted.countP (·.1 = user)

/-- How many conversations the user has, and how many of its requests are past the check. -/
structure Within (user : Str) (N A : Nat) (s : Service) : Prop where
  conversations : conversationsOf user s.db ≤ N
  admitted : admittedOf user s ≤ A

def Balanced (settings : Settings) (most : Int) (user : Str) (N A : Nat) (s : Service) : Prop :=
  ∀ u, s.db.users.get? user = some u → spent most user s.db + most * admittedOf user s ≤
    max 0 (Ledger.tokenBudget settings.budget u - 1) + most * (N + A)

theorem Balanced.next (h : Balanced settings most user N A s)
    (hknown : ∀ id u, s.db.users.get? id = some u → s'.db.users.get? id = some u)
    (hunknown : s.db.users.get? user = none → s'.db.users.get? user = none)
    (hspent : spent most user s'.db + most * admittedOf user s' ≤ spent most user s.db + most * admittedOf user s) :
    Balanced settings most user N A s' := by
  intro u hu
  cases hbefore : s.db.users.get? user with
  | none =>
      rw [hunknown hbefore] at hu
      cases hu
  | some u' =>
      obtain rfl := Option.some.inj ((hknown _ _ hbefore).symm.trans hu)
      exact hspent.trans (h u' hbefore)

theorem calm_step {fresh : Conversation → Prop} (hmost : 0 ≤ most) (h : Sane s) (hb : Balanced settings most user N A s)
    (hs : Sound none s'.db) (hcalm : Calm (fun _ => true) user fresh s.db s'.db)
    (hissued : s.issued ⊆ s'.issued) (hfresh : ∀ c, fresh c → c.id ∉ s.issued ∧ c.id ∈ s'.issued)
    (hadmitted : s'.admitted.Sublist s.admitted) (hworkers : s'.workers = s.workers) :
    Sane s' ∧ Balanced settings most user N A s' := by
  refine ⟨h.next hs hcalm.toKept hissued (fun c hc => .inl (hfresh c hc)) nofun hadmitted.subset ?_ ?_, ?_⟩
  · exact fun w hw => .inl ⟨hworkers ▸ hw, rfl⟩
  · exact hworkers ▸ h.alone
  · refine hb.next hcalm.known hcalm.unknown (Int.add_le_add (hcalm.afforded hmost).spent ?_)
    exact Int.mul_le_mul_of_nonneg_left (Int.ofNat_le.mpr hadmitted.countP_le) hmost

theorem still_step (hmost : 0 ≤ most) (h : Sane s) (hb : Balanced settings most user N A s) (hs : Sound none s'.db)
    (hcalm : Calm (fun _ => true) user (fun _ => False) s.db s'.db) (hissued : s.issued ⊆ s'.issued)
    (hadmitted : s'.admitted.Sublist s.admitted) (hworkers : s'.workers = s.workers) :
    Sane s' ∧ Balanced settings most user N A s' :=
  calm_step hmost h hb hs hcalm hissued (fun _ hc => hc.elim) hadmitted hworkers

end Budget

section Steps

variable [Interpreter] {settings : Settings} {p : Process} {draw : Draw} {userId user : Str} {most : Int}
  {N A : Nat} {s : Service}

theorem request_step {request : Request} (hmost : 0 ≤ most) (h : Sane s) (hb : Balanced settings most user N A s)
    (hnew : draw.id ∉ s.issued) (hstart : ∀ id prompt, request ≠ .startRun id prompt) :
    let s' : Service := { s with
      db := perform settings s.db (.request p draw userId request), issued := draw.id :: s.issued }
    Sane s' ∧ Balanced settings most user N A s' := by
  obtain ⟨hs, hcalm⟩ : Sound none (serve settings p draw userId request s.db).2.2 ∧
      Calm (fun _ => true) user _ s.db (serve settings p draw userId request s.db).2.2 :=
    calm_path h.sound (serve_writes settings p draw userId request s.db)
      fun id prompt hrequest => absurd hrequest (hstart id prompt)
  refine calm_step hmost h hb hs hcalm (List.subset_cons_self _ _) ?_ (.refl _) rfl
  exact fun c hc => ⟨hc.1 ▸ hnew, hc.1 ▸ List.mem_cons_self⟩

omit [Interpreter] in
theorem allow_step {conversationId : Str} {conversation : Conversation} (henforce : settings.budgetEnforce = true)
    (hmost : 0 ≤ most) (h : Sane s) (hb : Balanced settings most user N A s)
    (hallow : (exec (allow settings p userId conversationId) { db := s.db }).1 = .ok conversation)
    (hwithin : Within user N A { s with admitted := (userId, conversation) :: s.admitted }) :
    let s' : Service := { s with admitted := (userId, conversation) :: s.admitted }
    Sane s' ∧ Balanced settings most user N A s' := by
  intro s'
  obtain ⟨hc, howner, hleft⟩ := allow_spec hallow
  obtain ⟨hmem, hid⟩ := Table.get?_eq_some.mp hc
  obtain rfl : conversation.id = conversationId := hid
  refine ⟨{ h with users := ?_, admitted := ?_ }, fun u hu => ?_⟩
  · refine List.forall_mem_cons.mpr ⟨?_, h.users⟩
    obtain ⟨u, hu⟩ := h.sound.conversation conversation hmem
    exact ⟨u, howner ▸ hu⟩
  · refine List.forall_mem_cons.mpr ⟨⟨h.conversations _ hmem, fun horphan => ?_, fun c hc' => ?_⟩, h.admitted⟩
    · exact howner.symm.trans (h.orphan conversation (horphan ▸ hc)).2
    · obtain rfl := Option.some.inj (hc.symm.trans hc')
      exact howner
  · by_cases hmine : userId = user
    · -- the user had not spent all, so the bound starts anew
      have hconsumed := hleft u (hmine ▸ hu) henforce
      have hrunning := (inFlight_le_conversationsOf h.sound (fun _ => true) user).trans hwithin.conversations
      have hcost : most * (inFlight (fun _ => true) user s.db + admittedOf user s' : Nat) ≤ most * (N + A : Nat) :=
        Int.mul_le_mul_of_nonneg_left (Int.ofNat_le.mpr (Nat.add_le_add hrunning hwithin.admitted)) hmost
      rw [Int.natCast_add, Int.natCast_add, Int.mul_add] at hcost
      rw [hmine] at hconsumed
      change consumed user s.db + most * inFlight (fun _ => true) user s.db + most * admittedOf user s' ≤ _
      omega
    · have hcount : admittedOf user s' = admittedOf user s :=
        List.countP_cons_of_neg (by simpa using hmine)
      rw [hcount]
      exact hb u hu

theorem claim_step {prompt : Str} {conversation : Conversation} {before after : List (Str × Conversation)}
    {r : Except Tenants.Raised Run} {w : World} (hmost : 0 ≤ most) (h : Sane s)
    (hb : Balanced settings most user N A s) (hnew : draw.id ∉ s.issued)
    (hadmitted : s.admitted = before ++ (userId, conversation) :: after)
    (hclaim : exec (claim settings p draw userId conversation prompt) { db := s.db } = (r, w)) :
    let s' : Service := ⟨w.db, draw.id :: s.issued, before ++ after, launched p r ++ s.workers⟩
    Sane s' ∧ Balanced settings most user N A s' := by
  intro s'
  have howner : ∀ c, s.db.conversations.get? conversation.id = some c → c.userId = userId :=
    (h.admitted (userId, conversation) (by simp [hadmitted])).2.2
  have hfresh : ∀ r ∈ s.db.runs.rows, r.id ≠ draw.id := fun r hr hid => hnew (hid ▸ h.runs r hr)
  have hother : ∀ w ∈ s.workers, w.1 ≠ draw.id := fun w hw hid => hnew (hid ▸ (h.workers w hw).1)
  obtain ⟨hs, hcalm, hcount, hrun⟩ := claim_spec user h.sound howner hfresh hclaim
  have hlaunched : ∀ w' ∈ launched p r, w'.1 = draw.id ∧
      ∀ run, w.db.runs.get? draw.id = some run → run.status = str "running" ∧ run.ownerInstance = some w'.2 := by
    intro w' hw'
    cases r with
    | error e => cases hw'
    | ok run =>
        obtain rfl := List.mem_singleton.mp hw'
        obtain ⟨hid, hrow⟩ := hrun run rfl
        refine ⟨hid, fun run' hrun' => ?_⟩
        obtain rfl := Option.some.inj (hrow.symm.trans hrun')
        exact ⟨rfl, rfl⟩
  refine ⟨h.next hs hcalm.toKept (List.subset_cons_self _ _) (fun _ hc => hc.elim) ?_ ?_ ?_ ?_, ?_⟩
  · intro r _ hkeep
    exact List.mem_cons.mpr (.inl (not_not.mp (of_decide_eq_false hkeep)))
  · intro q hq
    rw [hadmitted]
    exact List.mem_append.mpr ((List.mem_append.mp hq).imp_right (List.mem_cons_of_mem _))
  · intro w' hw'
    rcases List.mem_append.mp hw' with hw' | hw'
    · obtain ⟨hid, hrow⟩ := hlaunched w' hw'
      exact .inr ⟨List.mem_cons.mpr (.inl hid), hid ▸ hrow⟩
    · exact .inl ⟨hw', decide_eq_true (hother w' hw')⟩
  · cases r with
    | error e => exact h.alone
    | ok run =>
        refine List.nodup_cons.mpr ⟨fun hmem => ?_, h.alone⟩
        obtain ⟨w', hw', hid⟩ := List.mem_map.mp hmem
        exact hother w' hw' (hid.trans (hrun run rfl).1)
  · refine hb.next hcalm.known hcalm.unknown ?_
    have hsplit : admittedOf user s = admittedOf user s' + if userId = user then 1 else 0 := by
      simp only [admittedOf, hadmitted, s', List.countP_append, List.countP_cons, decide_eq_true_eq, Nat.add_assoc]
    have hcost : most * (inFlight (fun _ => true) user w.db + admittedOf user s' : Nat) ≤
        most * (inFlight (fun _ => true) user s.db + admittedOf user s : Nat) :=
      Int.mul_le_mul_of_nonneg_left (Int.ofNat_le.mpr (by omega)) hmost
    rw [Int.natCast_add, Int.natCast_add, Int.mul_add, Int.mul_add] at hcost
    change spent most user w.db + most * admittedOf user s' ≤ _
    rw [spent, spent, hcalm.consumed]
    omega

theorem finish_step {active : Option Entry} {tokensTotal : Float64} {runId instanceId : Str} {outcome : RunOutcome}
    {before after : List (Str × Str)} (hne : str "usr_orphaned" ≠ user) (hmost : 0 ≤ most) (h : Sane s)
    (hb : Balanced settings most user N A s) (hbills : Bills outcome most)
    (hworkers : s.workers = before ++ (runId, instanceId) :: after) :
    let s' : Service := { s with
      db := perform settings s.db (.finish p draw active tokensTotal runId outcome), workers := before ++ after }
    Sane s' ∧ Balanced settings most user N A s' := by
  intro s'
  have hmem : ∀ w ∈ before ++ after, w ∈ s.workers := by
    intro w hw
    rw [hworkers]
    exact List.mem_append.mpr ((List.mem_append.mp hw).imp_right (List.mem_cons_of_mem _))
  obtain ⟨hid, hrun⟩ := h.workers (runId, instanceId) (by simp [hworkers])
  have halone : (s.workers.map (·.1)).Nodup := h.alone
  rw [hworkers, List.map_append, List.map_cons, List.nodup_middle, ← List.map_append, List.nodup_cons] at halone
  obtain ⟨hkept, hafforded⟩ := spent_finishRun settings p draw hne h.sound hmost hbills
    active tokensTotal (fun run hget => (hrun run hget).1) h.orphan
  refine ⟨h.next (sound_finishRun active tokensTotal runId outcome h.sound) hkept (fun _ hid => hid)
    (fun _ hc => .inr hc) ?_ (fun _ hq => hq) ?_ halone.2, ?_⟩
  · intro r _ hkeep
    exact not_not.mp (of_decide_eq_false hkeep) ▸ hid
  · intro w hw
    refine .inl ⟨hmem w hw, decide_eq_true fun hsame => halone.1 ?_⟩
    exact List.mem_map.mpr ⟨w, hw, hsame⟩
  · exact hb.next hkept.known hafforded.unknown (Int.add_le_add_right hafforded.spent _)

omit [Interpreter] in
variable (user) in
theorem kept_reconcile (instanceId : Str) (now : Int) (hmost : 0 ≤ most) (h : Sane s) :
    let db := (exec (do reconcileOrphanedRuns instanceId now; reconcileOrphanedSandboxes instanceId) { db := s.db }).2.db
    Kept (fun id => (s.db.runs.get? id).all fun run => run.ownerInstance ≠ some instanceId) (fun _ => False) s.db db ∧
      Afforded most user s.db db := by
  intro db
  have hback : ∀ r' ∈ db.runs.rows, r' ∈ s.db.runs.rows ∨
      ∃ r ∈ s.db.runs.rows, orphaned instanceId r.status r.ownerInstance = true ∧ r' = interrupt now r :=
    fun r' hr' => mem_updateWhere (f := interrupt now) (fun _ => rfl) hr'
  have hcounts : inFlight (fun _ => true) user db ≤ inFlight (fun _ => true) user s.db := by
    have hrows : db.runs.rows = s.db.runs.rows.map fun r =>
        if orphaned instanceId r.status r.ownerInstance then interrupt now r else r := rfl
    rw [inFlight, hrows, List.countP_map]
    refine List.countP_mono_left fun r _ hr => ?_
    rw [Function.comp_apply] at hr
    split at hr
    · exact absurd hr (by simp [isInFlight, interrupt])
    · exact hr
  refine ⟨⟨fun _ _ hu => hu, fun c hc => .inl hc, fun r' hr' hkeep => ?_⟩, fun hu => hu, ?_⟩
  · rcases hback r' hr' with hr' | ⟨r, hr, horphaned, rfl⟩
    · exact ⟨r', hr', rfl, rfl, rfl⟩
    · -- a row that runs has an instance, so it is the one that restarts
      have hget : s.db.runs.get? (interrupt now r).id = some r := Table.get?_eq_some.mpr ⟨hr, rfl⟩
      rw [hget, Option.all_some, decide_eq_true_eq] at hkeep
      simp only [orphaned, Bool.and_eq_true, Bool.or_eq_true, decide_eq_true_eq] at horphaned
      obtain ⟨hstatus, howner | hnone⟩ := horphaned
      · exact absurd howner hkeep
      · rcases h.sound.runState r hr (by simp) with ⟨-, -, hsome⟩ | ⟨hended, -⟩
        · rw [hnone] at hsome
          cases hsome
        · exact absurd hstatus hended.ne_running
  · exact Int.add_le_add_left (Int.mul_le_mul_of_nonneg_left (Int.ofNat_le.mpr hcounts) hmost) _

theorem restart_step {instanceId : Str} {now : Int} (hmost : 0 ≤ most) (h : Sane s)
    (hb : Balanced settings most user N A s) :
    let s' : Service := { s with
      db := perform settings s.db (.reconcile instanceId now), workers := s.workers.filter (·.2 ≠ instanceId) }
    Sane s' ∧ Balanced settings most user N A s' := by
  intro s'
  obtain ⟨hkept, hafforded⟩ := kept_reconcile user instanceId now hmost h
  refine ⟨h.next (sound_perform settings (.reconcile instanceId now) h.sound) hkept (fun _ hid => hid) nofun ?_ (fun _ hq => hq) ?_ ?_, ?_⟩
  · intro r hr _
    rcases mem_updateWhere (f := interrupt now) (fun _ => rfl) hr with hr | ⟨old, hold, -, rfl⟩
    · exact h.runs r hr
    · exact h.runs old hold
  · intro w hw
    obtain ⟨hw, hne⟩ := List.mem_filter.mp hw
    refine .inl ⟨hw, (Option.all_eq_true _ _).mpr fun run hrun => decide_eq_true fun howner => ?_⟩
    have hsame := ((h.workers w hw).2 run hrun).2.symm.trans howner
    exact of_decide_eq_true hne (Option.some.inj hsame)
  · exact h.alone.sublist (List.filter_sublist.map _)
  · exact hb.next hkept.known hafforded.unknown (Int.add_le_add_right hafforded.spent _)

omit [Interpreter] in
variable (most) in
theorem spent_of_unknown (h : Sane s) (hnone : s.db.users.get? user = none) :
    spent most user s.db = 0 ∧ admittedOf user s = 0 := by
  have habsent : ∀ {id : Str}, (∃ u, s.db.users.get? id = some u) → id ≠ user := by
    rintro id ⟨u, hu⟩ rfl
    cases hnone.symm.trans hu
  have hconsumed : consumed user s.db = 0 := by
    rw [consumed, List.filter_eq_nil_iff.mpr]
    · rfl
    · exact fun e he howner => habsent (h.sound.usage e he) (of_decide_eq_true howner)
  have hidle : inFlight (fun _ => true) user s.db = 0 := by
    refine List.countP_eq_zero.mpr fun run _ hcounts => ?_
    simp only [isInFlight, Bool.true_and, Bool.and_eq_true, Option.any_eq_true, decide_eq_true_eq] at hcounts
    obtain ⟨-, c, hc, howner⟩ := hcounts
    exact habsent (h.sound.conversation c (Table.get?_eq_some.mp hc).1) howner
  refine ⟨?_, List.countP_eq_zero.mpr fun q hq howner => habsent (h.users q hq) (of_decide_eq_true howner)⟩
  rw [spent, hconsumed, hidle]
  exact (zero_add _).trans (Int.mul_zero _)

theorem register_step (hmost : 0 ≤ most) (h : Sane s) (hb : Balanced settings most user N A s) :
    let s' : Service := { s with db := perform settings s.db (.register p draw) }
    Sane s' ∧ Balanced settings most user N A s' := by
  intro s'
  have hs : Sound none s'.db := sound_perform settings (.register p draw) h.sound
  have hdb : s'.db = (addUser s.db ⟨draw.id, 0, 0⟩).getD s.db := by
    change (exec (Background.register p draw) { db := s.db }).2.db = _
    rw [Background.register, tryCommit, exec_write]
    cases addUser s.db ⟨draw.id, 0, 0⟩ <;> rfl
  cases hadd : addUser s.db ⟨draw.id, 0, 0⟩ with
  | none =>
      rw [hadd, Option.getD_none] at hdb
      exact still_step hmost h hb hs (hdb ▸ calm_of_eq rfl rfl rfl rfl) (List.Subset.refl _) (.refl _) rfl
  | some db =>
      rw [hadd, Option.getD_some] at hdb
      obtain rfl : db = s'.db := hdb.symm
      by_cases hmine : draw.id = user
      · have hkept : Kept (fun _ => true) (fun _ => False) s.db s'.db := kept_addUser hadd
        refine ⟨h.next hs hkept (List.Subset.refl _) (fun _ hc => hc.elim) nofun (fun _ hq => hq)
          (fun w hw => .inl ⟨hw, rfl⟩) h.alone, fun u hu => ?_⟩
        obtain ⟨t, ht, heq⟩ := map_insert hadd
        have hnone : s.db.users.get? user = none := hmine ▸ (Table.rows_of_insert ht).2
        obtain ⟨hspent, hadmitted⟩ := spent_of_unknown most h hnone
        have hcost : spent most user s'.db = spent most user s.db := by
          rw [heq]
          rfl
        have hwaiting : admittedOf user s' = admittedOf user s := rfl
        rw [hcost, hwaiting, hspent, hadmitted, zero_add, Int.natCast_zero, Int.mul_zero]
        exact Int.add_nonneg (le_max_left _ _)
          (Int.mul_nonneg hmost (Int.add_nonneg (Int.natCast_nonneg _) (Int.natCast_nonneg _)))
      · exact still_step hmost h hb hs (calm_addUser hmine hadd) (List.Subset.refl _) (.refl _) rfl

omit [Interpreter] in
theorem calm_storeUpload (conversationId filename storedName : Str) (size : Nat) (path : Uploads.Path) (db : Database) :
    Calm (fun _ => true) user (fun _ => False) db
      (exec (Background.storeUpload p draw userId conversationId filename storedName size path) { db }).2.db := by
  have htraced : Traced World.db (Calm (fun _ => true) user fun _ => False) (fun _ => True)
      (Background.storeUpload p draw userId conversationId filename storedName size path) fun _ _ => True := by
    refine Traced.bind (traced_getOwned _ conversationId _ _ _) fun c => ?_
    refine Traced.bind (Q := fun _ _ => True) (traced_tryCommit (fun db _ db' h => ?_) fun _ _ _ _ => trivial) fun _ =>
      .pure fun _ _ => trivial
    rw [addFile, Option.ite_none_left_eq_some] at h
    obtain ⟨t, ht, rfl⟩ := map_insert h.2
    exact calm_of_eq rfl rfl rfl rfl
  have hpath := htraced.path { db } trivial
  generalize (exec (Background.storeUpload p draw userId conversationId filename storedName size path) { db }).2.db = db' at hpath ⊢
  induction hpath with
  | refl => exact calm_of_eq rfl rfl rfl rfl
  | tail _ h ih => exact ih.trans h

/-- What is spent and what the runs that go on can still cost has been within the budget when
they were let through: the most that is ever spent beyond it is the cost of one run for each
conversation, and of one for each request that was past the check before the budget was spent. -/
theorem overspend_bounded (henforce : settings.budgetEnforce = true) (hne : str "usr_orphaned" ≠ user) (hmost : 0 ≤ most)
    (hrun : ReflTransGen (fun s s' => Step settings most s s' ∧ Within user N A s') .initial s) {u : Ledger.User}
    (hu : s.db.users.get? user = some u) :
    consumed user s.db + most * inFlight (fun _ => true) user s.db ≤
      max 0 (Ledger.tokenBudget settings.budget u - 1) + most * (N + A) := by
  have hinv : Sane s ∧ Balanced settings most user N A s := by
    clear hu
    induction hrun with
    | refl =>
        refine ⟨⟨?_, List.mem_singleton.mpr rfl, nofun, nofun, nofun, nofun, nofun, nofun, List.nodup_nil⟩, nofun⟩
        constructor <;> exact fun _ h => absurd h List.not_mem_nil
    | tail _ hstep ih =>
        obtain ⟨h, hb⟩ := ih
        obtain ⟨hstep, hwithin⟩ := hstep
        cases hstep with
        | request hnew hstart => exact request_step hmost h hb hnew hstart
        | allow hallow => exact allow_step henforce hmost h hb hallow hwithin
        | claim hnew hadmitted hclaim => exact claim_step hmost h hb hnew hadmitted hclaim
        | abandon hadmitted =>
            refine still_step hmost h hb h.sound (calm_of_eq rfl rfl rfl rfl) (List.Subset.refl _) ?_ rfl
            rw [hadmitted]
            exact List.Sublist.append_left (List.sublist_cons_self _ _) _
        | finish hbills hworkers => exact finish_step hne hmost h hb hbills hworkers
        | restart => exact restart_step hmost h hb
        | register => exact register_step hmost h hb
        | storeUpload =>
            exact still_step hmost h hb (sound_perform settings (.storeUpload _ _ _ _ _ _ _ _) h.sound)
              (calm_storeUpload _ _ _ _ _ _) (List.Subset.refl _) (.refl _) rfl
        | reap =>
            exact still_step hmost h hb (sound_perform settings (.reap _) h.sound) (calm_of_eq rfl rfl rfl rfl)
              (List.Subset.refl _) (.refl _) rfl
  have hrest : 0 ≤ most * admittedOf user s := Int.mul_nonneg hmost (Int.natCast_nonneg _)
  exact (Int.le_add_of_nonneg_right hrest).trans (hinv.2 u hu)

end Steps

/-- The last run that the budget allows costs more than what is left. -/
theorem overspend_bounded_last :
    letI : Interpreter := asciiTables
    let settings := Settings.bare true 10
    let p := Process.bare (.ok (str "s1"))
    let outcome : RunOutcome :=
      { usage := some [(str "input", .int 12), (str "output", .int 3)], sawResult := true }
    let conversation : Tenants.Conversation := ⟨⟨"c1", "u1"⟩, "mine", 2, 2⟩
    let db₁ := perform settings emptyDatabase (.register p ⟨"u1", [], 1, 1, 1⟩)
    let db₂ := perform settings db₁ (.request p ⟨"c1", [], 2, 2, 2⟩ "u1" (.createConversation "mine"))
    let claimed := exec (claim settings p ⟨"r1", [], 3, 3, 3⟩ "u1" conversation "go") { db := db₂ }
    let db₄ := perform settings claimed.2.db (.finish p ⟨"e1", [], 4, 4, 4⟩ none (ofInt 0) "r1" outcome)
    consumed "u1" db₄ + 15 * inFlight (fun _ => true) "u1" db₄ ≤
      max 0 (Ledger.tokenBudget settings.budget ⟨"u1", 0, 0⟩ - 1) + 15 * (((1 : Nat) : Int) + ((1 : Nat) : Int)) := by
  let _ : Interpreter := asciiTables
  intro settings p outcome conversation db₁ db₂ claimed db₄
  let ids : List Str := ["c1", "cnv_orphaned"]
  have hregister : Step settings 15 .initial ⟨db₁, ["cnv_orphaned"], [], []⟩ := .register
  have hcreate : Step settings 15 ⟨db₁, ["cnv_orphaned"], [], []⟩ ⟨db₂, ids, [], []⟩ := .request (by decide) nofun
  have hallow : Step settings 15 ⟨db₂, ids, [], []⟩ ⟨db₂, ids, [("u1", conversation)], []⟩ := by
    have h : (exec (allow settings p "u1" "c1") { db := db₂ }).1 = .ok conversation := rfl
    exact .allow h
  have hclaim : Step settings 15 ⟨db₂, ids, [("u1", conversation)], []⟩
      ⟨claimed.2.db, str "r1" :: ids, [], [(str "r1", str "i1")]⟩ := by
    have hlaunched : launched p claimed.1 ++ [] = [(str "r1", str "i1")] := by decide +kernel
    rw [← hlaunched]
    exact @Step.claim _ settings 15 ⟨db₂, ids, [("u1", conversation)], []⟩ p ⟨"r1", [], 3, 3, 3⟩ "u1" "go"
      conversation [] [] claimed.1 claimed.2 (by decide) rfl rfl
  have hfinish : Step settings 15 ⟨claimed.2.db, str "r1" :: ids, [], [(str "r1", str "i1")]⟩
      ⟨db₄, str "r1" :: ids, [], []⟩ := by
    have hbills : Bills outcome 15 := by
      intro event h
      obtain rfl := Except.ok.inj h
      decide
    exact @Step.finish _ settings 15 ⟨claimed.2.db, str "r1" :: ids, [], [(str "r1", str "i1")]⟩ p
      ⟨"e1", [], 4, 4, 4⟩ none (ofInt 0) "r1" "i1" outcome [] [] hbills rfl
  have hrun : ReflTransGen (fun s s' => Step settings 15 s s' ∧ Within "u1" 1 1 s') .initial
      ⟨db₄, str "r1" :: ids, [], []⟩ := by
    refine .tail (.tail (.tail (.tail (.tail .refl ⟨hregister, ?_⟩) ⟨hcreate, ?_⟩) ⟨hallow, ?_⟩) ⟨hclaim, ?_⟩)
      ⟨hfinish, ?_⟩
    all_goals exact ⟨by decide +kernel, by decide +kernel⟩
  have huser : (db₄.users.get? "u1").map (fun u => (u.id, u.planPoints, u.packPoints)) = some (str "u1", 0, 0) := by
    decide +kernel
  obtain ⟨u, hu, hfields⟩ := Option.map_eq_some_iff.mp huser
  obtain rfl : u = ⟨"u1", 0, 0⟩ := by
    cases u
    simpa using hfields
  simpa only using overspend_bounded rfl (by decide) (by decide) hrun hu

end AgentWeb.KillSwitch
