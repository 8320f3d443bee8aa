import AgentWeb.PrivateHandlers

namespace AgentWeb.TenantIsolation

open PyText PyJson Protocol Noninterference Tables Tenants Ownership PrivateHandlers

theorem conversationIds_ownRows (userId : Str) (db : Database) :
    conversationIds userId (ownRows userId db) = conversationIds userId db :=
  congrArg (List.map _) (conversations.filter_restrict (fun _ hc => hc) db)

def lacksWithin (userId : Str) (db : Database) (id : Str) (there : Bool) (detail : Str) :
    Option Str :=
  if (db.conversations.get? id).any fun c => c.userId = userId then
    if there then none else some detail
  else some "conversation not found"

/-- The user has no such conversation, run, file or secret. Whether somebody else has
it makes no difference. -/
def lacks (userId : Str) (db : Database) : Request → Option Str
  | .getConversation id | .deleteConversation id | .startRun id _ =>
      lacksWithin userId db id true []
  | .getRun id runId | .cancelRun id runId | .answerRun id runId _ _ | .streamRun id runId _ _ =>
      lacksWithin userId db id ((db.runs.get? runId).any fun r => r.conversationId = id)
        "run not found"
  | .deleteFile id fileId =>
      lacksWithin userId db id ((db.files.get? fileId).any fun f => f.conversationId = id)
        "file not found"
  | .deleteSecret name =>
      if db.secrets.rows.any fun s => s.userId = userId && s.name = name then none
      else some "secret not found"
  | .createConversation _ | .listConversations | .usageSummary | .putSecret _ _ _ | .listSecrets =>
      none

def refusal (p : Process) (userId : Str) (request : Request) (detail : Str) : Answer :=
  match request, p.retryAfter (str "runs:" ++ userId) with
  | .startRun _ _, some secs => answerOf (.error (.limited secs))
  | _, _ => .refusal 404 detail none

/-- The handler raises before it has done anything. -/
def Refuses {α : Type} (m : Handler α) (db : Database) (detail : Str) : Prop :=
  exec m { db } = (.error (notFound detail), { db })

theorem refuses_getOwned {α β : Type} [Keyed α Str] {table : Database → Table α} {id : Str}
    {ownerField : α → Str} {ownerValue detail : Str} {f : α → Handler β} {db : Database}
    (h : ((table db).get? id).any (fun a => ownerField a = ownerValue) = false) :
    Refuses (getOwned table id ownerField ownerValue detail >>= f) db detail := by
  refine exec_bind_of_error ?_
  rw [exec_getOwned]
  cases hget : (table db).get? id with
  | none => rfl
  | some a =>
      have hf : (some a).filter (fun a => ownerField a = ownerValue) = none :=
        Option.filter_some_neg (by simpa [hget] using h)
      simp only [hf]

theorem refuses_within {β : Type} {userId id detail inner : Str} {there : Bool} {db : Database}
    {f : Conversation → Handler β} (h : lacksWithin userId db id there inner = some detail)
    (hf : ∀ c, c.id = id → there = false → Refuses (f c) db inner) :
    Refuses (owned userId id >>= f) db detail := by
  unfold lacksWithin at h
  split at h
  · next hmine =>
      obtain ⟨c, hget, hc⟩ := (Option.any_eq_true ..).mp hmine
      have hfilter : ((some c).filter fun c => c.userId = userId) = some c :=
        Option.filter_some_pos hc
      have hown : exec (owned userId id) { db } = (.ok c, { db }) := by
        rw [owned, exec_getOwned, hget]
        simp only [hfilter]
      cases there with
      | true => simp at h
      | false =>
          obtain rfl : inner = detail := by simpa using h
          rw [Refuses, exec_bind_of_ok hown]
          exact hf c (Table.key_of_get? hget) rfl
  · next hmine =>
      obtain rfl : str "conversation not found" = detail := by simpa using h
      exact refuses_getOwned (Bool.eq_false_iff.mpr hmine)

section Requests

variable [Interpreter] (settings : Settings) (p : Process) (draw : Draw) (userId : Str)
  (request : Request)

theorem refuses_handle (db : Database) (detail : Str) (h : lacks userId db request = some detail)
    (hlimit : ∀ id prompt, request = .startRun id prompt →
      p.retryAfter (str "runs:" ++ userId) = none) :
    Refuses (handle settings p draw userId request) db detail := by
  cases request with
  | createConversation _ | listConversations | usageSummary | putSecret _ _ _ | listSecrets =>
      cases h
  | getConversation id => exact refuses_within h fun _ _ hthere => nomatch hthere
  | deleteConversation id =>
      exact exec_bind_of_error (refuses_within h fun _ _ hthere => nomatch hthere)
  | startRun id prompt =>
      have hpass : exec (limitRuns p userId) { db } = (.ok (), { db }) := by
        rw [limitRuns, hlimit id prompt rfl]
        rfl
      exact (exec_bind_of_ok hpass).trans (refuses_within h fun _ _ hthere => nomatch hthere)
  | getRun id runId | cancelRun id runId | answerRun id runId _ _ | streamRun id runId _ _ =>
      refine refuses_within h fun c hc hthere => refuses_getOwned ?_
      rw [hc]
      exact hthere
  | deleteFile id fileId =>
      refine refuses_within h fun c hc hthere => exec_bind_of_error (refuses_getOwned ?_)
      rw [hc]
      exact hthere
  | deleteSecret name =>
      simp only [lacks, Option.ite_none_left_eq_some, Option.some.injEq] at h
      obtain ⟨hnone, rfl⟩ := h
      have hfind : exec (findSecret userId name) { db } = (.ok none, { db }) := by
        refine congrArg (fun found => (Except.ok found, ({ db } : World))) ?_
        rw [List.head?_eq_none_iff, List.filter_eq_nil_iff]
        exact fun x hx hname => hnone (List.any_eq_true.mpr ⟨x, hx, hname⟩)
      refine exec_bind_of_error ?_
      rw [deleteSecret, exec_bind_of_ok hfind]
      rfl

theorem serve_of_lacks (db : Database) (detail : Str) (h : lacks userId db request = some detail) :
    serve settings p draw userId request db = (refusal p userId request detail, [], db) := by
  have hserve : refusal p userId request detail = .refusal 404 detail none →
      (∀ id prompt, request = .startRun id prompt → p.retryAfter (str "runs:" ++ userId) = none) →
      serve settings p draw userId request db = (refusal p userId request detail, [], db) := by
    intro hrefusal hlimit
    rw [serve, refuses_handle settings p draw userId request db detail h hlimit, hrefusal]
    rfl
  cases hretry : p.retryAfter (str "runs:" ++ userId) with
  | none =>
      refine hserve ?_ fun _ _ _ => hretry
      cases request <;> simp only [refusal, hretry]
  | some secs =>
      cases request with
      | startRun id prompt =>
          have hlimited : exec (limitRuns p userId) { db } = (.error (.limited secs), { db }) := by
            rw [limitRuns, hretry]
            rfl
          rw [serve, handle, exec_bind_of_error hlimited]
          simp only [refusal, hretry]
      | _ => exact hserve rfl nofun

/-- Two databases that agree on the rows of a user: the user is answered alike, the same
is done outside, the rows of the user still agree, and those of the others are as before. A
request for something that the user does not have is refused, and nothing is done. -/
theorem served_alike (db₁ db₂ : Database) (hfresh₁ : Fresh p draw db₁) (hfresh₂ : Fresh p draw db₂)
    (hown : ownRows userId db₁ = ownRows userId db₂) :
    let r₁ := serve settings p draw userId request db₁
    let r₂ := serve settings p draw userId request db₂
    let mine := ownedBy userId (conversationIds userId db₁)
    r₁.1 = r₂.1 ∧ r₁.2.1 = r₂.2.1 ∧ restrict r₁.2.2 mine = restrict r₂.2.2 mine ∧
      restrict r₁.2.2 mine.others = restrict db₁ mine.others ∧
      ∀ detail, lacks userId db₁ request = some detail →
        r₁ = (refusal p userId request detail, [], db₁) := by
  intro r₁ r₂ mine
  have hids : conversationIds userId db₂ = conversationIds userId db₁ := by
    rw [← conversationIds_ownRows, ← hown, conversationIds_ownRows]
  have hready₁ : Ready userId (conversationIds userId db₁) p draw db₁ :=
    ⟨knows_conversationIds userId db₁, hfresh₁⟩
  have hready₂ : Ready userId (conversationIds userId db₁) p draw db₂ :=
    ⟨hids ▸ knows_conversationIds userId db₂, hfresh₂⟩
  have hview : (boundary userId (conversationIds userId db₁)).view { db := db₁ } =
      (boundary userId (conversationIds userId db₁)).view { db := db₂ } := by
    refine congrArg (fun db => ({ db } : World)) ?_
    rw [ownRows, ownRows, hids] at hown
    exact hown
  have hprivate : Private userId (conversationIds userId db₁)
      (Ready userId (conversationIds userId db₁) p draw) (handle settings p draw userId request)
      fun _ _ => True := private_handle settings request
  obtain ⟨hresult, hafter⟩ := hprivate.agree hready₁ hready₂ hview
  have heffects := congrArg World.effects hafter
  have hdb := congrArg World.db hafter
  exact ⟨congrArg answerOf hresult, heffects, hdb, hprivate.rest { db := db₁ } hready₁,
    serve_of_lacks settings p draw userId request db₁⟩

end Requests

/-- The conversation `c2` is of another user in the first database, and not there in the
second one. -/
theorem served_alike_foreign :
    letI : Interpreter := asciiTables
    let settings := Settings.bare false 0
    let p := Process.bare (.error (.exception "no sandbox"))
    let draw : Draw := ⟨"d1", [], 3, 3, 3⟩
    let users : Table Ledger.User := ⟨[⟨"u1", 0, 0⟩], by decide⟩
    let db₁ : Database := ⟨users,
      ⟨[⟨⟨"c1", "u1"⟩, "mine", 1, 1⟩, ⟨⟨"c2", "u2"⟩, "theirs", 2, 2⟩], by decide⟩,
      .empty, .empty, .empty, .empty, .empty⟩
    let db₂ : Database := ⟨users, ⟨[⟨⟨"c1", "u1"⟩, "mine", 1, 1⟩], by decide⟩,
      .empty, .empty, .empty, .empty, .empty⟩
    (serve settings p draw "u1" (.getConversation "c2") db₁).1 =
        (serve settings p draw "u1" (.getConversation "c2") db₂).1 ∧
      (serve settings p draw "u1" (.getConversation "c2") db₁).1 =
        .refusal 404 "conversation not found" none := by
  let _ : Interpreter := asciiTables
  intro settings p draw users db₁ db₂
  have hfresh₁ : Fresh p draw db₁ := ⟨rfl, rfl, rfl, nofun⟩
  have hfresh₂ : Fresh p draw db₂ := ⟨rfl, rfl, rfl, nofun⟩
  have h := served_alike settings p draw "u1" (.getConversation "c2") db₁ db₂ hfresh₁ hfresh₂ rfl
  exact ⟨h.1, congrArg Prod.fst (h.2.2.2.2 "conversation not found" rfl)⟩

end AgentWeb.TenantIsolation
