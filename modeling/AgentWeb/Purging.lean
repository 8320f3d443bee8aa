import AgentWeb.Integrity
import AgentWeb.Unwinding

namespace AgentWeb.Purging

open PyText PyJson Noninterference Tables Tenants Ownership PrivateHandlers Writes Integrity Relation Unwinding

/-- A request of a user, with the process that answers it and what is drawn for it. -/
structure Call where
  p : Process
  draw : Draw
  userId : Str
  request : Request

def Draws (p : Process) (draw : Draw) (id : Str) : Prop :=
  id = draw.id ∨ ∃ userId conversationId secrets, p.create userId conversationId secrets = .ok id

def mentioned (db : Database) : List Str :=
  db.conversations.rows.flatMap (fun c => [c.id]) ++
    (db.runs.rows.flatMap (fun r => [r.id, r.conversationId]) ++
      (db.files.rows.flatMap (fun f => [f.conversationId]) ++
        (db.usageEvents.rows.flatMap (fun e => [e.conversationId]) ++
          (db.secrets.rows.flatMap (fun s => [s.id]) ++
            db.sandboxes.rows.flatMap (fun s => [s.id, s.conversationId])))))

section Tables

variable {α : Type} [Keyed α Str] {t t' : Table α} {a b : α} {refs : α → List Str} {id : Str}

theorem refs_insert (h : t.insert a = some t') :
    t'.rows.flatMap refs = t.rows.flatMap refs ++ refs a := by
  rw [(Table.rows_of_insert h).1]
  simp

theorem refs_save (refs : α → List Str) (h : t.get? (Keyed.key a) = some b) (hab : refs a = refs b) :
    (t.save a).rows.flatMap refs = t.rows.flatMap refs := by
  obtain ⟨hb, hkey⟩ := Table.get?_eq_some.mp h
  change (t.rows.map (Table.overwrite a)).flatMap refs = _
  rw [List.flatMap_map]
  refine List.flatMap_congr fun c hc => ?_
  unfold Table.overwrite
  split
  next hsame => rw [hab, List.inj_on_of_nodup_map t.nodup hc hb (hsame.trans hkey.symm)]
  next => rfl

theorem refs_restrict {q : α → Bool} (h : id ∈ (t.restrict q).rows.flatMap refs) :
    id ∈ t.rows.flatMap refs := by
  obtain ⟨c, hc, hid⟩ := List.mem_flatMap.mp h
  exact List.mem_flatMap.mpr ⟨c, (List.mem_filter.mp hc).1, hid⟩

theorem restrict_removed {q q' : α → Bool} (h : ∀ a ∈ t.rows, q a = true → q' a = true) :
    (t.restrict q').restrict q = t.restrict q := by
  refine Table.ext ?_
  rw [Table.rows_restrict, Table.rows_restrict, Table.rows_restrict, List.filter_filter]
  refine List.filter_congr fun a ha => ?_
  cases hq : q a with
  | true => rw [h a ha hq, Bool.and_self]
  | false => exact Bool.false_and _

section Scope

variable (part : Ownership.Part α) {db db' : Database} {s : Scope}

theorem restrict_put (h : t.restrict (part.of s) = (part.get db).restrict (part.of s)) :
    restrict (part.put db t) s = restrict db s := by
  rw [part.restrict_put, h, ← part.get_restrict, part.put_get]

theorem restrict_inserted (h : ((part.get db).insert a).map (part.put db) = some db')
    (ha : part.of s a = false) : restrict db' s = restrict db s := by
  obtain ⟨t, ht, rfl⟩ := map_insert h
  refine restrict_put part (Table.ext ?_)
  rw [Table.rows_restrict, Table.rows_restrict, (Table.rows_of_insert ht).1, List.filter_append,
    List.filter_singleton, ha]
  exact List.append_nil _

theorem restrict_saved (h : (part.get db).get? (Keyed.key a) = some b) (ha : part.of s a = false)
    (hb : part.of s b = false) : restrict (part.put db ((part.get db).save a)) s = restrict db s :=
  restrict_put part (Table.restrict_save_of_not h (ha.trans hb.symm) ha)

theorem restrict_without {k : Str} (h : (part.get db).get? k = some b) (hb : part.of s b = false) :
    restrict (part.put db ((part.get db).restrict fun a => Keyed.key a ≠ k)) s = restrict db s := by
  refine restrict_put part (restrict_removed fun a ha hq => decide_eq_true ?_)
  rintro rfl
  obtain rfl := Option.some.inj (h.symm.trans (Table.get?_eq_some.mpr ⟨ha, rfl⟩))
  rw [hb] at hq
  cases hq

end Scope

end Tables

theorem mentioned_saveRun {db : Database} {run old : Run} {id : Str} (hmem : id ∈ mentioned (db.saveRun run))
    (h : db.runs.get? run.id = some old) (hin : run.conversationId = old.conversationId) :
    id ∈ mentioned db := by
  have hid : old.id = run.id := Table.key_of_get? h
  have hrefs : [run.id, run.conversationId] = [old.id, old.conversationId] := by rw [hid, hin]
  have hsave := refs_save (fun r : Run => [r.id, r.conversationId]) h hrefs
  simpa only [mentioned, Database.saveRun, hsave] using hmem

theorem mentioned_saveSandbox {db : Database} {s old : Sandbox} {id : Str}
    (hmem : id ∈ mentioned (db.saveSandbox s)) (h : db.sandboxes.get? s.id = some old)
    (hin : s.conversationId = old.conversationId) : id ∈ mentioned db := by
  have hid : old.id = s.id := Table.key_of_get? h
  have hrefs : [s.id, s.conversationId] = [old.id, old.conversationId] := by rw [hid, hin]
  have hsave := refs_save (fun s : Sandbox => [s.id, s.conversationId]) h hrefs
  simpa only [mentioned, Database.saveSandbox, hsave] using hmem

theorem mentioned_saveSecret {db : Database} {s old : Secret} {id : Str}
    (hmem : id ∈ mentioned (db.saveSecret s)) (h : db.secrets.get? s.id = some old) : id ∈ mentioned db := by
  have hid : old.id = s.id := Table.key_of_get? h
  have hsave := refs_save (fun s : Secret => [s.id]) h (by rw [hid])
  simpa only [mentioned, Database.saveSecret, hsave] using hmem

section Writes

variable [Interpreter] {settings : Settings} {p : Process} {draw : Draw} {userId : Str} {request : Request}
  {db db' : Database}

theorem mentioned_write (h : Write settings p draw userId db request db') {id : Str}
    (hid : id ∈ mentioned db') : id ∈ mentioned db ∨ Draws p draw id := by
  have hfound : ∀ {c : Conversation}, db.conversations.get? c.id = some c →
      c.id ∈ db.conversations.rows.flatMap fun c => [c.id] :=
    fun hc => List.mem_flatMap.mpr ⟨_, (Table.get?_eq_some.mp hc).1, by simp⟩
  have hdraw : id = draw.id → Draws p draw id := .inl
  cases h with
  | addConversation h =>
      simp only [Database.addConversation, Option.ite_none_left_eq_some] at h
      obtain ⟨t, ht, rfl⟩ := map_insert h.2
      simp only [mentioned, refs_insert ht, List.mem_append, List.mem_singleton] at hid ⊢
      rcases hid with (h | h) | h
      · exact .inl (.inl h)
      · exact .inr (hdraw h)
      · exact .inl (.inr h)
  | removeConversation hc howner =>
      simp only [mentioned, List.mem_append] at hid ⊢
      rcases hid with h | h | h | h
      · exact .inl (.inl (refs_restrict h))
      · exact .inl (.inr (.inl (refs_restrict h)))
      · exact .inl (.inr (.inr (.inl (refs_restrict h))))
      · exact .inl (.inr (.inr (.inr h)))
  | @addRun c prompt _ hc howner h =>
      simp only [Database.addRun, Option.ite_none_left_eq_some] at h
      obtain ⟨t, ht, rfl⟩ := map_insert h.2.2
      have hin : (newRun p draw c.id prompt).conversationId = c.id := rfl
      have hnew : (newRun p draw c.id prompt).id = draw.id := rfl
      simp only [mentioned, refs_insert ht, List.mem_append, List.mem_cons, List.not_mem_nil, or_false, hin,
        hnew] at hid ⊢
      rcases hid with h | (h | h | rfl) | h
      · exact .inl (.inl h)
      · exact .inl (.inr (.inl h))
      · exact .inr (hdraw h)
      · exact .inl (.inl (hfound hc))
      · exact .inl (.inr (.inr h))
  | endRun hc howner hrun =>
      exact .inl (mentioned_saveRun hid hrun rfl)
  | @addSandbox c _ secrets sandboxId _ hc howner hnone hcreate h =>
      obtain ⟨t, ht, rfl⟩ := map_insert h
      have hnew : id = sandboxId → Draws p draw id := fun h => .inr ⟨_, _, secrets, h ▸ hcreate⟩
      simp only [mentioned, refs_insert ht, List.mem_append, List.mem_cons, List.not_mem_nil, or_false]
        at hid ⊢
      rcases hid with h | h | h | h | h | h | h | rfl
      · exact .inl (.inl h)
      · exact .inl (.inr (.inl h))
      · exact .inl (.inr (.inr (.inl h)))
      · exact .inl (.inr (.inr (.inr (.inl h))))
      · exact .inl (.inr (.inr (.inr (.inr (.inl h)))))
      · exact .inl (.inr (.inr (.inr (.inr (.inr h)))))
      · exact .inr (hnew h)
      · exact .inl (.inl (hfound hc))
  | retireSandbox hc howner hs hcurrent =>
      exact .inl (mentioned_saveSandbox hid hs rfl)
  | cancelRun hc howner hrun hin hstatus =>
      exact .inl (mentioned_saveRun hid hrun rfl)
  | removeFile hc howner hf hin =>
      simp only [mentioned, List.mem_append] at hid ⊢
      rcases hid with h | h | h | h
      · exact .inl (.inl h)
      · exact .inl (.inr (.inl h))
      · exact .inl (.inr (.inr (.inl (refs_restrict h))))
      · exact .inl (.inr (.inr (.inr h)))
  | addSecret hnone h =>
      simp only [Database.addSecret, Option.ite_none_left_eq_some] at h
      obtain ⟨t, ht, rfl⟩ := map_insert h.2
      simp only [mentioned, refs_insert ht, List.mem_append, List.mem_singleton] at hid ⊢
      rcases hid with h | h | h | h | (h | h) | h
      · exact .inl (.inl h)
      · exact .inl (.inr (.inl h))
      · exact .inl (.inr (.inr (.inl h)))
      · exact .inl (.inr (.inr (.inr (.inl h))))
      · exact .inl (.inr (.inr (.inr (.inr (.inl h)))))
      · exact .inr (hdraw h)
      · exact .inl (.inr (.inr (.inr (.inr (.inr h)))))
  | saveSecret hs howner =>
      exact .inl (mentioned_saveSecret hid hs)
  | removeSecret hs howner =>
      simp only [mentioned, List.mem_append] at hid ⊢
      rcases hid with h | h | h | h | h | h
      · exact .inl (.inl h)
      · exact .inl (.inr (.inl h))
      · exact .inl (.inr (.inr (.inl h)))
      · exact .inl (.inr (.inr (.inr (.inl h))))
      · exact .inl (.inr (.inr (.inr (.inr (.inl (refs_restrict h))))))
      · exact .inl (.inr (.inr (.inr (.inr (.inr h)))))

theorem foreign_write (hs : Sound none db) (h : Write settings p draw userId db request db') {other : Str}
    (hne : userId ≠ other) :
    restrict db' (ownedBy other (conversationIds other db)) =
      restrict db (ownedBy other (conversationIds other db)) := by
  have hforeign : ∀ {c : Conversation}, db.conversations.get? c.id = some c → c.userId = userId →
      (conversationIds other db).contains c.id = false := by
    intro c hc howner
    rw [Bool.eq_false_iff, ne_eq, List.contains_iff_mem, knows_conversationIds other db c.id]
    rintro ⟨c', hc', howner'⟩
    obtain rfl := Option.some.inj (hc.symm.trans hc')
    exact hne (howner.symm.trans howner')
  have hnot : decide (userId = other) = false := decide_eq_false hne
  have howned : ∀ {user : Str}, user = userId → decide (user = other) = false :=
    fun huser => huser ▸ hnot
  cases h with
  | addConversation h =>
      simp only [Database.addConversation, Option.ite_none_left_eq_some] at h
      exact restrict_inserted conversations h.2 hnot
  | @removeConversation c hc howner =>
      have hid : ∀ {id : Str}, (conversationIds other db).contains id = true → id ≠ c.id := by
        rintro id hmem rfl
        rw [hforeign hc howner] at hmem
        cases hmem
      simp only [restrict, Database.removeConversation]
      rw [restrict_removed, restrict_removed, restrict_removed]
      · intro f hf hmine
        refine decide_eq_true ?_
        simp only [ownedBy, Bool.or_eq_true, decide_eq_true_eq] at hmine
        rcases hmine with hmine | hmine
        · -- the owner of a file is the one of its conversation
          obtain ⟨c', hc', howner'⟩ := hs.file f hf
          rintro hin
          rw [hin] at hc'
          obtain rfl := Option.some.inj (hc.symm.trans hc')
          exact hne (howner.symm.trans (howner'.trans hmine))
        · exact hid hmine
      · exact fun r _ hmine => decide_eq_true (hid hmine)
      · intro c' hc' hmine
        refine decide_eq_true fun heq => ?_
        have hget := Table.get?_eq_some.mpr ⟨hc', heq⟩
        obtain rfl := Option.some.inj (hc.symm.trans hget)
        exact hne (howner.symm.trans (of_decide_eq_true hmine))
  | addRun hc howner h =>
      simp only [Database.addRun, Option.ite_none_left_eq_some] at h
      exact restrict_inserted runs h.2.2 (hforeign hc howner)
  | endRun hc howner hrun => exact restrict_saved runs hrun (hforeign hc howner) (hforeign hc howner)
  | addSandbox hc howner hnone hcreate h =>
      exact restrict_inserted sandboxes h (Bool.or_eq_false_iff.mpr ⟨hnot, hforeign hc howner⟩)
  | retireSandbox hc howner hsandbox hcurrent =>
      simp only [isCurrent, Bool.and_eq_true, decide_eq_true_eq] at hcurrent
      have hout := Bool.or_eq_false_iff.mpr ⟨howned hcurrent.1.1, hcurrent.1.2 ▸ hforeign hc howner⟩
      exact restrict_saved sandboxes hsandbox hout hout
  | cancelRun hc howner hrun hin hstatus =>
      have hout := hin ▸ hforeign hc howner
      exact restrict_saved runs hrun hout hout
  | @removeFile c f hc howner hf hin =>
      refine restrict_without files hf (Bool.or_eq_false_iff.mpr ⟨?_, hin ▸ hforeign hc howner⟩)
      obtain ⟨c', hc', howner'⟩ := hs.file f (Table.get?_eq_some.mp hf).1
      rw [hin] at hc'
      obtain rfl := Option.some.inj (hc.symm.trans hc')
      exact howned (howner'.symm.trans howner)
  | addSecret hnone h =>
      simp only [Database.addSecret, Option.ite_none_left_eq_some] at h
      exact restrict_inserted secrets h.2 hnot
  | saveSecret hsecret howner => exact restrict_saved secrets hsecret (howned howner) (howned howner)
  | removeSecret hsecret howner => exact restrict_without secrets hsecret (howned howner)

def named (db : Database) : List Str :=
  db.runs.rows.map (·.conversationId) ++ (db.files.rows.map (·.conversationId) ++
    (db.usageEvents.rows.map (·.conversationId) ++ db.sandboxes.rows.map (·.conversationId)))

omit [Interpreter] in
theorem mentioned_of_named {id : Str} (h : id ∈ named db) : id ∈ mentioned db := by
  simp only [named, mentioned, List.mem_append, List.mem_map, List.mem_flatMap, List.mem_cons,
    List.not_mem_nil, or_false] at h ⊢
  rcases h with ⟨r, hr, rfl⟩ | ⟨f, hf, rfl⟩ | ⟨e, he, rfl⟩ | ⟨s, hs, rfl⟩
  · exact .inr (.inl ⟨r, hr, .inr rfl⟩)
  · exact .inr (.inr (.inl ⟨f, hf, rfl⟩))
  · exact .inr (.inr (.inr (.inl ⟨e, he, rfl⟩)))
  · exact .inr (.inr (.inr (.inr (.inr ⟨s, hs, .inr rfl⟩))))

theorem ids_write (h : Write settings p draw userId db request db') (other : Str) :
    ((∃ title, request = .createConversation title) → named db' = named db) ∧
      ∀ id ∈ conversationIds other db', id ∈ conversationIds other db ∨
        (id = draw.id ∧ ∃ title, request = .createConversation title) := by
  cases h with
  | @addConversation title _ h =>
      simp only [Database.addConversation, Option.ite_none_left_eq_some] at h
      obtain ⟨t, ht, rfl⟩ := map_insert h.2
      refine ⟨fun _ => rfl, fun id hid => ?_⟩
      obtain ⟨c, hc, rfl⟩ := List.mem_map.mp hid
      obtain ⟨hc, hmine⟩ := List.mem_filter.mp hc
      rcases mem_insert ht hc with hc | rfl
      · exact .inl (List.mem_map.mpr ⟨c, List.mem_filter.mpr ⟨hc, hmine⟩, rfl⟩)
      · exact .inr ⟨rfl, title, rfl⟩
  | removeConversation hc howner =>
      refine ⟨by rintro ⟨_, ⟨⟩⟩, fun id hid => .inl ?_⟩
      obtain ⟨c, hc, rfl⟩ := List.mem_map.mp hid
      obtain ⟨hc, hmine⟩ := List.mem_filter.mp hc
      exact List.mem_map.mpr ⟨c, List.mem_filter.mpr ⟨(List.mem_filter.mp hc).1, hmine⟩, rfl⟩
  | addRun hc howner h =>
      simp only [Database.addRun, Option.ite_none_left_eq_some] at h
      obtain ⟨t, ht, rfl⟩ := map_insert h.2.2
      exact ⟨by rintro ⟨_, ⟨⟩⟩, fun id hid => .inl hid⟩
  | addSandbox hc howner hnone hcreate h =>
      obtain ⟨t, ht, rfl⟩ := map_insert h
      exact ⟨by rintro ⟨_, ⟨⟩⟩, fun id hid => .inl hid⟩
  | addSecret hnone h =>
      simp only [Database.addSecret, Option.ite_none_left_eq_some] at h
      obtain ⟨t, ht, rfl⟩ := map_insert h.2
      exact ⟨by rintro ⟨_, ⟨⟩⟩, fun id hid => .inl hid⟩
  | endRun | retireSandbox | cancelRun | removeFile | saveSecret | removeSecret =>
      exact ⟨by rintro ⟨_, ⟨⟩⟩, fun id hid => .inl hid⟩

variable (settings p userId request) in
theorem serve_named (hnew : draw.id ∉ mentioned db) :
    ∀ id ∈ named (serve settings p draw userId request db).2.2,
      id ∈ conversationIds userId (serve settings p draw userId request db).2.2 →
        id ∈ conversationIds userId db := by
  have hpath := serve_writes settings p draw userId request db
  generalize (serve settings p draw userId request db).2.2 = after at hpath ⊢
  have hkept : ((∃ title, request = .createConversation title) → named after = named db) ∧
      ∀ id ∈ conversationIds userId after, id ∈ conversationIds userId db ∨
        (id = draw.id ∧ ∃ title, request = .createConversation title) := by
    induction hpath with
    | refl => exact ⟨fun _ => rfl, fun id hid => .inl hid⟩
    | tail _ h ih =>
        obtain ⟨hnamed, hids⟩ := ids_write h userId
        refine ⟨fun hcreate => (hnamed hcreate).trans (ih.1 hcreate), fun id hid => ?_⟩
        exact (hids id hid).elim (ih.2 id) .inr
  intro id hid hmine
  rcases hkept.2 id hmine with hmine | ⟨rfl, hcreate⟩
  · exact hmine
  · rw [hkept.1 hcreate] at hid
    exact absurd (mentioned_of_named hid) hnew

omit [Interpreter] in
theorem restrict_ownedBy {ids ids' : List Str} (h : ∀ id ∈ named db, id ∈ ids' → id ∈ ids) :
    restrict db (ownedBy userId ids') = restrict (restrict db (ownedBy userId ids)) (ownedBy userId ids') := by
  have hcontains : ∀ {id : Str}, id ∈ named db → ids'.contains id = true → ids.contains id = true :=
    fun hid h' => List.contains_iff_mem.mpr (h _ hid (List.contains_iff_mem.mp h'))
  have hor : ∀ {b : Bool} {id : Str}, id ∈ named db → (b || ids'.contains id) = true →
      (b || ids.contains id) = true := by
    intro b id hid h'
    rcases Bool.or_eq_true_iff.mp h' with h' | h'
    · rw [h', Bool.true_or]
    · rw [hcontains hid h', Bool.or_true]
  simp only [restrict]
  rw [restrict_removed, restrict_removed, restrict_removed, restrict_removed, restrict_removed,
    restrict_removed, restrict_removed]
  · exact fun s hs => hor (List.mem_append_right _ (List.mem_append_right _ (List.mem_append_right _
      (List.mem_map_of_mem hs))))
  · exact fun _ _ hmine => hmine
  · exact fun e he => hor (List.mem_append_right _ (List.mem_append_right _ (List.mem_append_left _
      (List.mem_map_of_mem he))))
  · exact fun f hf => hor (List.mem_append_right _ (List.mem_append_left _ (List.mem_map_of_mem hf)))
  · exact fun r hr => hcontains (List.mem_append_left _ (List.mem_map_of_mem hr))
  · exact fun _ _ hmine => hmine
  · exact fun _ _ hmine => hmine

omit [Interpreter] in
theorem fresh_of_unmentioned (h : ∀ id, Draws p draw id → id ∉ mentioned db) : Fresh p draw db := by
  have hdraw := h draw.id (.inl rfl)
  simp only [mentioned, List.mem_append, List.mem_flatMap, List.mem_cons, List.not_mem_nil, or_false, not_or,
    not_exists, not_and] at h hdraw
  refine ⟨?_, ?_, ?_, fun user conversation secrets sandboxId hcreate => ?_⟩
  · exact Table.get?_eq_none.mpr fun c hc hid => hdraw.1 c hc hid.symm
  · exact Table.get?_eq_none.mpr fun r hr hid => (hdraw.2.1 r hr).1 hid.symm
  · exact Table.get?_eq_none.mpr fun s hs hid => hdraw.2.2.2.2.1 s hs hid.symm
  · have hsandbox := h sandboxId (.inr ⟨user, conversation, secrets, hcreate⟩)
    exact Table.get?_eq_none.mpr fun s hs hid => (hsandbox.2.2.2.2.2 s hs).1 hid.symm

variable (settings request) in
/-- Two databases that agree on what the user owns still do after a request of the user, which
is answered alike on both. -/
theorem own_request {db₁ db₂ : Database} (hnew₁ : ∀ id, Draws p draw id → id ∉ mentioned db₁)
    (hnew₂ : ∀ id, Draws p draw id → id ∉ mentioned db₂)
    (hown : ownRows userId db₁ = ownRows userId db₂) :
    let r₁ := serve settings p draw userId request db₁
    let r₂ := serve settings p draw userId request db₂
    r₁.1 = r₂.1 ∧ r₁.2.1 = r₂.2.1 ∧ ownRows userId r₁.2.2 = ownRows userId r₂.2.2 := by
  intro r₁ r₂
  have hconv : ∀ {x y : Database} {ids ids' : List Str},
      restrict x (ownedBy userId ids) = restrict y (ownedBy userId ids') →
        conversationIds userId x = conversationIds userId y :=
    fun h => congrArg (fun db : Database => db.conversations.rows.map fun c : Conversation => c.id) h
  have hids : conversationIds userId db₂ = conversationIds userId db₁ := (hconv hown).symm
  have hready₁ : Ready userId (conversationIds userId db₁) p draw db₁ :=
    ⟨knows_conversationIds userId db₁, fresh_of_unmentioned hnew₁⟩
  have hready₂ : Ready userId (conversationIds userId db₁) p draw db₂ :=
    ⟨hids ▸ knows_conversationIds userId db₂, fresh_of_unmentioned hnew₂⟩
  have hview : (boundary userId (conversationIds userId db₁)).view { db := db₁ } =
      (boundary userId (conversationIds userId db₁)).view { db := db₂ } := by
    refine congrArg (fun db => ({ db } : World)) ?_
    rw [ownRows, ownRows, hids] at hown
    exact hown
  have hprivate : Private userId (conversationIds userId db₁)
      (Ready userId (conversationIds userId db₁) p draw) (handle settings p draw userId request)
      fun _ _ => True := private_handle settings request
  obtain ⟨hresult, hafter⟩ := hprivate.agree hready₁ hready₂ hview
  have heffects := congrArg World.effects hafter
  have hdb : restrict r₁.2.2 (ownedBy userId (conversationIds userId db₁)) =
      restrict r₂.2.2 (ownedBy userId (conversationIds userId db₁)) := congrArg World.db hafter
  refine ⟨congrArg answerOf hresult, heffects, ?_⟩
  have hnamed₁ := serve_named settings p userId request (hnew₁ draw.id (.inl rfl))
  have hnamed₂ := serve_named settings p userId request (hnew₂ draw.id (.inl rfl))
  rw [ownRows, ownRows, restrict_ownedBy hnamed₁, restrict_ownedBy hnamed₂, hids, hdb, hconv hdb]

theorem mentioned_serve {id : Str} (hid : id ∈ mentioned (serve settings p draw userId request db).2.2) :
    id ∈ mentioned db ∨ Draws p draw id := by
  have hpath := serve_writes settings p draw userId request db
  generalize (serve settings p draw userId request db).2.2 = after at hpath hid
  induction hpath with
  | refl => exact .inl hid
  | tail _ h ih => exact (mentioned_write h hid).elim ih .inr

theorem foreign_request {other : Str} (hs : Sound none db) (hne : userId ≠ other) :
    ownRows other (serve settings p draw userId request db).2.2 = ownRows other db := by
  have hpath := serve_writes settings p draw userId request db
  generalize (serve settings p draw userId request db).2.2 = after at hpath ⊢
  have hkept : Sound none after ∧ ownRows other after = ownRows other db := by
    induction hpath with
    | refl => exact ⟨hs, rfl⟩
    | tail _ h ih =>
        obtain ⟨hsound, hown⟩ := ih
        have hsame := foreign_write hsound h hne
        have hids := congrArg (fun db : Database => db.conversations.rows.map fun c : Conversation => c.id) hsame
        refine ⟨sound_write settings hsound h, Eq.trans ?_ hown⟩
        rw [ownRows, ownRows, ← hsame]
        exact congrArg (fun ids => restrict _ (ownedBy other ids)) hids
  exact hkept.2

end Writes

/-- The answer to a request and what is done outside, and the rows afterwards. -/
def perform [Interpreter] (settings : Settings) (db : Database) (call : Call) :
    (Answer × List Effect) × Database :=
  let r := serve settings call.p call.draw call.userId call.request db
  ((r.1, r.2.1), r.2.2)

/-- The ids that are drawn are new: they are not in the rows, and never drawn twice. -/
structure Distinct (calls : List Call) (db : Database) : Prop where
  unmentioned : ∀ call ∈ calls, ∀ id, Draws call.p call.draw id → id ∉ mentioned db
  pairwise : calls.Pairwise fun c d => ∀ id, Draws c.p c.draw id → ¬ Draws d.p d.draw id

theorem Distinct.next [Interpreter] {settings : Settings} {call : Call} {calls : List Call} {db : Database}
    (h : Distinct (call :: calls) db) : Distinct calls (perform settings db call).2 where
  unmentioned c hc id hid hmem := by
    rcases mentioned_serve hmem with hmem | hdrawn
    · exact h.unmentioned c (List.mem_cons_of_mem _ hc) id hid hmem
    · exact (List.pairwise_cons.mp h.pairwise).1 c hc id hdrawn hid
  pairwise := (List.pairwise_cons.mp h.pairwise).2

theorem Distinct.tail {call : Call} {calls : List Call} {db : Database} (h : Distinct (call :: calls) db) :
    Distinct calls db :=
  ⟨fun c hc => h.unmentioned c (List.mem_cons_of_mem _ hc), (List.pairwise_cons.mp h.pairwise).2⟩

/-- A user is answered, and ends with the rows, as if nobody else had ever asked for anything:
the requests of the others, whatever they are and wherever they stand between its own, can be
purged. What the process holds comes with each request and is not purged. -/
theorem purge_others [Interpreter] (settings : Settings) (userId : Str) {db : Database} {calls : List Call}
    (hs : Sound none db) (hdraws : Distinct calls db) :
    let mine := fun call : Call => decide (call.userId = userId)
    observed (perform settings) mine db calls = outputs (perform settings) db (calls.filter mine) ∧
      ownRows userId (final (perform settings) db calls) =
        ownRows userId (final (perform settings) db (calls.filter mine)) := by
  intro mine
  -- the run of all requests on the left, the one of the user's own on the right
  let Agree : List Call → Database → Database → Prop := fun calls db₁ db₂ =>
    Sound none db₁ ∧ Distinct calls db₁ ∧ Distinct calls db₂ ∧ ownRows userId db₁ = ownRows userId db₂
  have hown : ∀ call calls db₁ db₂, mine call = true → Agree (call :: calls) db₁ db₂ →
      (perform settings db₁ call).1 = (perform settings db₂ call).1 ∧
        Agree calls (perform settings db₁ call).2 (perform settings db₂ call).2 := by
    rintro call calls db₁ db₂ hmine ⟨hs, h₁, h₂, hown⟩
    obtain rfl : call.userId = userId := of_decide_eq_true hmine
    obtain ⟨hanswer, heffects, hrows⟩ := own_request settings call.request
      (h₁.unmentioned call (by simp)) (h₂.unmentioned call (by simp)) hown
    refine ⟨Prod.ext hanswer heffects, ?_, h₁.next, h₂.next, hrows⟩
    exact sound_serve settings call.p call.draw call.userId call.request hs
  have hforeign : ∀ call calls db₁ db₂, mine call = false → Agree (call :: calls) db₁ db₂ →
      Agree calls (perform settings db₁ call).2 db₂ := by
    rintro call calls db₁ db₂ hmine ⟨hs, h₁, h₂, hown⟩
    refine ⟨sound_serve settings call.p call.draw call.userId call.request hs, h₁.next, h₂.tail, ?_⟩
    exact (foreign_request hs (of_decide_eq_false hmine)).trans hown
  have hstart : Agree calls db db := ⟨hs, hdraws, hdraws, rfl⟩
  obtain ⟨hanswers, -, -, -, hrows⟩ := purge hown hforeign hstart
  exact ⟨hanswers, hrows⟩

/-- The request of the other user in between is not seen. -/
theorem purge_others_two :
    letI : Interpreter := asciiTables
    let settings := Settings.bare false 0
    let p := Process.bare (.error (.exception "no sandbox"))
    let db : Database := ⟨⟨[⟨"u1", 0, 0⟩, ⟨"u2", 0, 0⟩], by decide⟩,
      .empty, .empty, .empty, .empty, .empty, .empty⟩
    let calls : List Call := [⟨p, ⟨"c1", [], 1, 1, 1⟩, "u1", .createConversation "mine"⟩,
      ⟨p, ⟨"c2", [], 2, 2, 2⟩, "u2", .createConversation "theirs"⟩, ⟨p, ⟨"d", [], 3, 3, 3⟩, "u1", .listConversations⟩]
    let mine := fun call : Call => decide (call.userId = str "u1")
    observed (perform settings) mine db calls = outputs (perform settings) db (calls.filter mine) ∧
      ownRows "u1" (final (perform settings) db calls) =
        ownRows "u1" (final (perform settings) db (calls.filter mine)) := by
  let _ : Interpreter := asciiTables
  intro settings p db calls mine
  have hsound : Sound none db := by
    constructor <;> exact fun _ h => absurd h List.not_mem_nil
  have hdraws : ∀ {draw : Draw} {id : Str}, Draws p draw id → id = draw.id := by
    rintro draw id (h | ⟨_, _, _, h⟩)
    · exact h
    · cases h
  refine purge_others settings "u1" hsound ⟨fun call _ id _ => List.not_mem_nil, ?_⟩
  have hids : ∀ {c d : Draw}, c.id ≠ d.id → ∀ id, Draws p c id → ¬ Draws p d id :=
    fun hne id hc hd => hne ((hdraws hc).symm.trans (hdraws hd))
  simp only [calls, List.pairwise_cons, List.mem_cons, List.not_mem_nil, or_false, forall_eq_or_imp, forall_eq,
    false_imp_iff, implies_true, and_true, List.Pairwise.nil]
  have hone : str "c1" ≠ str "c2" ∧ str "c1" ≠ str "d" ∧ str "c2" ≠ str "d" := by decide
  exact ⟨⟨hids hone.1, hids hone.2.1⟩, hids hone.2.2⟩

end AgentWeb.Purging
