import AgentWeb.Tenants

namespace AgentWeb.Ownership

open PyText Noninterference Tables Tenants

structure Scope where
  users : Ledger.User → Bool
  conversations : Conversation → Bool
  runs : Run → Bool
  files : ConversationFile → Bool
  usageEvents : UsageEvent → Bool
  secrets : Secret → Bool
  sandboxes : Sandbox → Bool

def Scope.others (s : Scope) : Scope where
  users u := !s.users u
  conversations c := !s.conversations c
  runs r := !s.runs r
  files f := !s.files f
  usageEvents e := !s.usageEvents e
  secrets x := !s.secrets x
  sandboxes x := !s.sandboxes x

def restrict (db : Database) (s : Scope) : Database where
  users := db.users.restrict s.users
  conversations := db.conversations.restrict s.conversations
  runs := db.runs.restrict s.runs
  files := db.files.restrict s.files
  usageEvents := db.usageEvents.restrict s.usageEvents
  secrets := db.secrets.restrict s.secrets
  sandboxes := db.sandboxes.restrict s.sandboxes

def ownedBy (userId : Str) (ids : List Str) : Scope where
  users u := u.id = userId
  conversations c := c.userId = userId
  runs r := ids.contains r.conversationId
  files f := f.userId = userId || ids.contains f.conversationId
  usageEvents e := e.userId = userId || ids.contains e.conversationId
  secrets x := x.userId = userId
  sandboxes x := x.userId = userId || ids.contains x.conversationId

def conversationIds (userId : Str) (db : Database) : List Str :=
  (db.conversations.rows.filter (·.userId = userId)).map (·.id)

def ownRows (userId : Str) (db : Database) : Database :=
  restrict db (ownedBy userId (conversationIds userId db))

def Knows (userId : Str) (ids : List Str) (db : Database) : Prop :=
  ∀ id, id ∈ ids ↔ ∃ c, db.conversations.get? id = some c ∧ c.userId = userId

theorem knows_conversationIds (userId : Str) (db : Database) :
    Knows userId (conversationIds userId db) db := by
  intro id
  simp only [conversationIds, List.mem_map, List.mem_filter, decide_eq_true_eq]
  constructor
  · rintro ⟨c, ⟨hc, huser⟩, rfl⟩
    exact ⟨c, Table.get?_eq_some.mpr ⟨hc, rfl⟩, huser⟩
  · rintro ⟨c, hc, huser⟩
    obtain ⟨hmem, hkey⟩ := Table.get?_eq_some.mp hc
    exact ⟨c, ⟨hmem, huser⟩, hkey⟩

section Boundary

variable {userId : Str} {ids : List Str} {db db' : Database} {α β : Type} {P : Database → Prop}
  {Q : α → Database → Prop} {R : β → Database → Prop}

def boundary (userId : Str) (ids : List Str) : Boundary World Database where
  view w := { w with db := restrict w.db (ownedBy userId ids) }
  rest w := restrict w.db (ownedBy userId ids).others

def Private (userId : Str) (ids : List Str) (P : Database → Prop) (m : Handler α)
    (Q : α → Database → Prop) : Prop :=
  Confined (boundary userId ids) (fun w => P w.db) m fun a w => Q a w.db

namespace Private

theorem pure {a : α} (h : ∀ db, P db → Q a db) : Private userId ids P (pure a) Q :=
  Confined.pure fun w hw => h w.db hw

theorem done {a : α} : Private userId ids P (Pure.pure a) fun _ _ => True :=
  Confined.pure fun _ _ => trivial

theorem throw {e : Raised} : Private userId ids P (throw e : Handler α) Q := Confined.throw

theorem bind {m : Handler α} {f : α → Handler β} (hm : Private userId ids P m Q)
    (hf : ∀ a, Private userId ids (Q a) (f a) R) : Private userId ids P (m >>= f) R :=
  Confined.bind hm hf

theorem pre {P' : Database → Prop} {m : Handler α} (hm : Private userId ids P m Q)
    (h : ∀ db, P' db → P db) : Private userId ids P' m Q :=
  Confined.consequence hm (fun w hw => h w.db hw) fun _ _ hq => hq

theorem forget {m : Handler α} (hm : Private userId ids P m Q) :
    Private userId ids P m fun _ _ => True :=
  Confined.consequence hm (fun _ h => h) fun _ _ _ => trivial

theorem of_fact {m : Handler α} {φ : Prop} (h : ∀ db, P db → φ)
    (hm : φ → Private userId ids P m Q) : Private userId ids P m Q :=
  Confined.of_fact (fun w hw => h w.db hw) hm

theorem raiseAll {x : Except Raised α} :
    Private userId ids P (raiseAll x) fun a db => P db ∧ x = .ok a :=
  Confined.raiseAll fun _ ha _ hw => ⟨hw, ha⟩

theorem adapt {m : Handler α} (g : Raised → Raised) (hm : Private userId ids P m Q) :
    Private userId ids P (ExceptT.adapt g m) Q :=
  Confined.adapt g hm

theorem transaction {m : Handler α} (hm : Private userId ids P m Q) :
    Private userId ids P (transaction rollback m) fun
      | .ok a => Q a
      | .error _ => P := by
  refine Confined.transaction hm ?_ ?_ ?_ ?_
  · exact fun _ _ => rfl
  · exact fun _ _ => rfl
  · exact fun _ _ hq => hq
  · exact fun _ _ _ hP => hP

end Private

theorem private_select {f : Database → α}
    (h : ∀ db, P db → f (restrict db (ownedBy userId ids)) = f db) :
    Private userId ids P (select f) fun a db => P db ∧ a = f db :=
  .query (fun w hw => h w.db hw) fun _ hw => ⟨hw, rfl⟩

theorem private_peek {f : Database → α}
    (h : ∀ db, f (restrict db (ownedBy userId ids)) = f db) :
    Private userId ids P (select f) fun _ => P :=
  .query (fun w _ => h w.db) fun _ hw => hw

theorem private_note {f : World → World} (h : ∀ w db, f { w with db } = { f w with db }) :
    Private userId ids P (modify f) fun _ => P := by
  have hdb : ∀ w, (f w).db = w.db := by
    intro w
    have hw := congrArg World.db (h w w.db)
    exact hw
  refine Confined.modify (fun w _ => ?_) (fun w _ => ?_) fun w hw => ?_
  · change f { w with db := restrict w.db (ownedBy userId ids) } =
      { f w with db := restrict (f w).db (ownedBy userId ids) }
    rw [h, hdb]
  · change restrict (f w).db _ = restrict w.db _
    rw [hdb]
  · rwa [hdb]

theorem private_emit (effects : List Effect) : Private userId ids P (emit effects) fun _ => P :=
  private_note fun _ _ => rfl

theorem private_commit {f : Database → Database} {Q : Unit → Database → Prop}
    (h : ∀ db, P db → f (restrict db (ownedBy userId ids)) = restrict (f db) (ownedBy userId ids))
    (hrest : ∀ db, P db →
      restrict (f db) (ownedBy userId ids).others = restrict db (ownedBy userId ids).others)
    (hpost : ∀ db, P db → Q () (f db)) : Private userId ids P (commit f) Q :=
  .modify (fun w hw => by rw [boundary, h w.db hw]) (fun w hw => hrest w.db hw)
    fun w hw => hpost w.db hw

/-- On the owned rows a write does what it does on all of them, and it leaves the rest. -/
inductive Lands (userId : Str) (ids : List Str) (f : Database → Option Database)
    (db : Database) (Q : Database → Prop) : Prop
  | refused (all : f db = none) (own : f (restrict db (ownedBy userId ids)) = none)
  | written (db' : Database) (all : f db = some db')
      (own : f (restrict db (ownedBy userId ids)) = some (restrict db' (ownedBy userId ids)))
      (rest : restrict db' (ownedBy userId ids).others = restrict db (ownedBy userId ids).others)
      (post : Q db')

theorem private_tryCommit {f : Database → Option Database} {e : Raised} {Q : Database → Prop}
    (h : ∀ db, P db → Lands userId ids f db Q) :
    Private userId ids P (tryCommit f e) fun _ => Q := by
  refine .write (fun w hw => ?_) (fun w hw t ht => ?_) fun w hw t ht => ?_
  · cases h w.db hw with
    | refused all own => simp [boundary, all, own]
    | written db' all own => simp [boundary, all, own]
  · cases h w.db hw with
    | refused all => simp [all] at ht
    | written db' all own rest =>
        obtain rfl : { w with db := db' } = t := by simpa [all] using ht
        exact rest
  · cases h w.db hw with
    | refused all => simp [all] at ht
    | written db' all own rest post =>
        obtain rfl : { w with db := db' } = t := by simpa [all] using ht
        exact post

theorem exec_getOwned [Keyed α Str] (table : Database → Table α) (id : Str)
    (ownerField : α → Str) (ownerValue detail : Str) (w : World) :
    exec (getOwned table id ownerField ownerValue detail) w =
      match ((table w.db).get? id).filter fun a => ownerField a = ownerValue with
      | some a => (.ok a, w)
      | none => (.error (notFound detail), w) := by
  rw [getOwned, exec_bind, select, exec_query]
  cases (table w.db).get? id with
  | none => rfl
  | some a =>
      by_cases h : ownerField a = ownerValue
      · have hf : (some a).filter (fun a => ownerField a = ownerValue) = some a :=
          Option.filter_some_pos (by simpa using h)
        simp [hf, h]
      · have hf : (some a).filter (fun a => ownerField a = ownerValue) = none :=
          Option.filter_some_neg (by simpa using h)
        simp [hf, h]

theorem private_getOwned [Keyed α Str] {table : Database → Table α} (mine : α → Bool) {id : Str}
    {ownerField : α → Str} {ownerValue detail : Str}
    (htable : ∀ db, table (restrict db (ownedBy userId ids)) = (table db).restrict mine)
    (hmine : ∀ a, ownerField a = ownerValue → mine a = true) :
    Private userId ids P (getOwned table id ownerField ownerValue detail) fun a db =>
      P db ∧ (table db).get? id = some a ∧ ownerField a = ownerValue where
  view w _ := by
    -- the two lookups differ on a row of somebody else, and agree past the check of the owner
    have h : ((table (boundary userId ids |>.view w).db).get? id).filter
        (fun a => ownerField a = ownerValue) =
        ((table w.db).get? id).filter fun a => ownerField a = ownerValue := by
      rw [boundary, htable, Table.get?_restrict, Option.filter_filter]
      refine congrArg (fun q => Option.filter q _) (funext fun a => ?_)
      by_cases ha : ownerField a = ownerValue
      · simp [ha, hmine a ha]
      · simp [ha]
    rw [exec_getOwned, exec_getOwned, h]
    cases ((table w.db).get? id).filter fun a => ownerField a = ownerValue <;> rfl
  rest w _ := by
    rw [exec_getOwned]
    cases ((table w.db).get? id).filter fun a => ownerField a = ownerValue <;> rfl
  post w hw a t he := by
    rw [exec_getOwned] at he
    cases hf : ((table w.db).get? id).filter fun a => ownerField a = ownerValue with
    | none => simp [hf] at he
    | some b =>
        obtain ⟨rfl, rfl⟩ : b = a ∧ w = t := by simpa [hf] using he
        obtain ⟨hget, howner⟩ := Option.filter_eq_some_iff.mp hf
        exact ⟨hw, hget, of_decide_eq_true howner⟩

theorem Knows.mem {c : Conversation} {id : Str} (h : Knows userId ids db)
    (hget : db.conversations.get? id = some c) (hc : c.userId = userId) : c.id ∈ ids := by
  obtain rfl : c.id = id := Table.key_of_get? hget
  exact (h c.id).mpr ⟨c, hget, hc⟩

theorem users_get? (db : Database) :
    (restrict db (ownedBy userId ids)).users.get? userId = db.users.get? userId :=
  Table.get?_restrict_of_key fun _ h => decide_eq_true h

theorem conversations_get? {c : Conversation} {id : Str}
    (h : db.conversations.get? id = some c) (hc : c.userId = userId) :
    (restrict db (ownedBy userId ids)).conversations.get? id = some c := by
  change (db.conversations.restrict _).get? id = some c
  rw [Table.get?_restrict, h]
  exact Option.filter_some_pos (decide_eq_true hc)

structure Part (α : Type) [Keyed α Str] where
  get : Database → Table α
  put : Database → Table α → Database
  of : Scope → α → Bool
  get_restrict : ∀ db s, get (restrict db s) = (get db).restrict (of s)
  restrict_put : ∀ db s t, restrict (put db t) s = put (restrict db s) (t.restrict (of s))
  put_get : ∀ db, put db (get db) = db
  of_others : ∀ s a, of s.others a = !of s a

def conversations : Part Conversation where
  get := (·.conversations)
  put db t := { db with conversations := t }
  of := (·.conversations)
  get_restrict _ _ := rfl
  restrict_put _ _ _ := rfl
  put_get _ := rfl
  of_others _ _ := rfl

def runs : Part Run where
  get := (·.runs)
  put db t := { db with runs := t }
  of := (·.runs)
  get_restrict _ _ := rfl
  restrict_put _ _ _ := rfl
  put_get _ := rfl
  of_others _ _ := rfl

def files : Part ConversationFile where
  get := (·.files)
  put db t := { db with files := t }
  of := (·.files)
  get_restrict _ _ := rfl
  restrict_put _ _ _ := rfl
  put_get _ := rfl
  of_others _ _ := rfl

def usageEvents : Part UsageEvent where
  get := (·.usageEvents)
  put db t := { db with usageEvents := t }
  of := (·.usageEvents)
  get_restrict _ _ := rfl
  restrict_put _ _ _ := rfl
  put_get _ := rfl
  of_others _ _ := rfl

def secrets : Part Secret where
  get := (·.secrets)
  put db t := { db with secrets := t }
  of := (·.secrets)
  get_restrict _ _ := rfl
  restrict_put _ _ _ := rfl
  put_get _ := rfl
  of_others _ _ := rfl

def sandboxes : Part Sandbox where
  get := (·.sandboxes)
  put db t := { db with sandboxes := t }
  of := (·.sandboxes)
  get_restrict _ _ := rfl
  restrict_put _ _ _ := rfl
  put_get _ := rfl
  of_others _ _ := rfl

section Part

variable [Keyed α Str] (part : Part α) {a b : α} {S : Database → Prop}

theorem Part.rest_put (db : Database) {s : Scope} {t : Table α}
    (h : t.restrict (part.of s.others) = (part.get db).restrict (part.of s.others)) :
    restrict (part.put db t) s.others = restrict db s.others := by
  rw [part.restrict_put, h, ← part.get_restrict, part.put_get]

theorem Part.filter_restrict {q : α → Bool}
    (h : ∀ a, q a = true → part.of (ownedBy userId ids) a = true) (db : Database) :
    (part.get (restrict db (ownedBy userId ids))).rows.filter q = (part.get db).rows.filter q := by
  rw [part.get_restrict]
  exact Table.filter_restrict h

theorem lands_insert (hfresh : (part.get db).get? (Keyed.key a) = none)
    (ha : part.of (ownedBy userId ids) a = true)
    (hpost : ∀ t, (part.get db).insert a = some t → S (part.put db t)) :
    Lands userId ids (fun db => ((part.get db).insert a).map (part.put db)) db S := by
  obtain ⟨t, ht, hown, hrest⟩ := Table.restrict_insert hfresh
  refine .written (part.put db t) ?_ ?_ (part.rest_put db (hrest _ ?_)) (hpost t ht)
  · rw [ht]
    rfl
  · rw [part.get_restrict, hown _ ha, part.restrict_put]
    rfl
  · rw [part.of_others, ha]
    rfl

theorem Lands.gate {f : Database → Option Database} {g : Database → Prop} [DecidablePred g]
    (hg : g (restrict db (ownedBy userId ids)) ↔ g db) (h : Lands userId ids f db S) :
    Lands userId ids (fun db => if g db then none else f db) db S := by
  by_cases hgate : g db
  · exact .refused (if_pos hgate) (if_pos (hg.mpr hgate))
  · cases h with
    | refused all own =>
        exact .refused ((if_neg hgate).trans all) ((if_neg (hg.not.mpr hgate)).trans own)
    | written db' all own rest post =>
        exact .written db' ((if_neg hgate).trans all) ((if_neg (hg.not.mpr hgate)).trans own)
          rest post

theorem private_save {Q : Unit → Database → Prop}
    (h : ∀ db, P db → ∃ b, (part.get db).get? (Keyed.key a) = some b ∧
      part.of (ownedBy userId ids) b = true)
    (ha : part.of (ownedBy userId ids) a = true)
    (hpost : ∀ db, P db → Q () (part.put db ((part.get db).save a))) :
    Private userId ids P (commit fun db => part.put db ((part.get db).save a)) Q := by
  refine private_commit (fun db hP => ?_) (fun db hP => ?_) hpost
  all_goals obtain ⟨b, hb, hmine⟩ := h db hP
  · rw [part.restrict_put, part.get_restrict, Table.restrict_save hb (ha.trans hmine.symm)]
  · refine part.rest_put db (Table.restrict_save_of_not hb ?_ ?_)
    · rw [part.of_others, part.of_others, ha, hmine]
    · rw [part.of_others, ha]
      rfl

theorem Part.restrict_removed (db : Database) (s : Scope) (q : α → Bool)
    (h : ∀ a, a ∈ (part.get db).rows → q a = false → part.of s a = true) :
    ((part.get db).restrict q).restrict (part.of s.others) =
      (part.get db).restrict (part.of s.others) := by
  refine Table.ext ?_
  change ((part.get db).rows.filter q).filter _ = _
  rw [List.filter_filter]
  refine List.filter_congr fun a ha => ?_
  cases hq : q a with
  | true => exact Bool.and_true _
  | false => rw [part.of_others, h a ha hq]; rfl

theorem private_remove {k : Str}
    (h : ∀ db, P db → ∃ b, (part.get db).get? k = some b ∧
      part.of (ownedBy userId ids) b = true) :
    Private userId ids P
      (commit fun db => part.put db ((part.get db).restrict fun a => Keyed.key a ≠ k))
      fun _ _ => True := by
  refine private_commit (fun db _ => ?_) (fun db hP => ?_) fun _ _ => trivial
  · rw [part.restrict_put, part.get_restrict, Table.restrict_comm]
  · refine part.rest_put db (part.restrict_removed db _ _ fun a ha hkey => ?_)
    obtain ⟨b, hb, hmine⟩ := h db hP
    have hget := Table.get?_eq_some.mpr ⟨ha, by simpa using hkey⟩
    obtain rfl := Option.some.inj (hget.symm.trans hb)
    exact hmine

end Part

end Boundary

end AgentWeb.Ownership
