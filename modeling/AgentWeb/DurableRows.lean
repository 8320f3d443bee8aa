import AgentWeb.UploadFile

namespace AgentWeb.DurableRows

open PyText UploadChecks Uploads UploadFile Interleaving Transitions

/-- The tiers and the durable keys that `store_upload` has ever written. -/
structure Ledger where
  tiers : Tiers
  written : List Str := []

/-- A call that is completed, where every storage operation succeeds. -/
inductive Call
  | storeUpload (u : Upload)
  | deleteUpload (conversation fileId : Str)
  | deleteConversation (user conversation : Str)
deriving DecidableEq

def keyPut : Thread → List Str
  | .committing u _ => [u.key]
  | _ => []

def complete (settings : Settings) : Nat → Ledger → Thread → Ledger × Thread
  | 0, s, th => (s, th)
  | n + 1, s, th =>
      match advance settings s.tiers .ok th with
      | none => (s, th)
      | some (t, th) => complete settings n ⟨t, s.written ++ keyPut th⟩ th

/-- `conversations.delete`. Someone else's conversation is not found. -/
def deleteConversation (settings : Settings) (t : Tiers) (user conversation : Str) : Tiers :=
  if ⟨conversation, user⟩ ∈ t.conversations then
    let rows := t.rows.filter (·.conversationId = conversation)
    let workspace := conversationWorkspace settings conversation
    { t with
      conversations := t.conversations.filter (·.id ≠ conversation)
      rows := t.rows.filter (·.conversationId ≠ conversation)
      -- a workspace of its own goes with the conversation
      files := fun path =>
        if (∃ r ∈ rows, r.path = path) ∨ settings.cwd = [] ∧ path.1 = workspace then none
        else t.files path }
  else t

/-- An upload is stored for a conversation that has been loaded, under a new id. -/
def step (settings : Settings) (s : Ledger) : Call → Option Ledger
  | .storeUpload u =>
      if (∃ c ∈ s.tiers.conversations, c.id = u.conversation) ∧ ∀ r ∈ s.tiers.rows, r.id ≠ u.fileId
        then some (complete settings (steps u) s (.called u)).1
      else none
  | .deleteUpload conversation fileId =>
      some (complete settings 4 s (.lookingUp conversation fileId)).1
  | .deleteConversation user conversation =>
      some { s with tiers := deleteConversation settings s.tiers user conversation }

def stored (t : Tiers) (key : Str) : Nat := ((t.blobs key).getD []).length

/-- The keys of the uploads that are in the store are those of the rows, which
bound what is stored. -/
structure Matches (s : Ledger) : Prop where
  keys : ∀ key, (key ∈ s.written ∧ (s.tiers.blobs key).isSome) ↔ ∃ r ∈ s.tiers.rows, r.key = key
  bytes : ∀ keys : List Str, keys.Nodup → (∀ key ∈ keys, key ∈ s.written) →
    (keys.map (stored s.tiers)).sum ≤ (s.tiers.rows.map ConversationFile.size).sum

/-- A conversation that is deleted has no uploads, and an upload that is deleted
has a key of its own. -/
def Alone (s : Ledger) : Call → Prop
  | .storeUpload _ => True
  | .deleteUpload conversation fileId =>
      ∀ row ∈ s.tiers.rows.find? fun r => r.id = fileId ∧ r.conversationId = conversation,
        ∀ r ∈ s.tiers.rows, r.key = row.key → r.id = row.id
  | .deleteConversation user conversation =>
      ⟨conversation, user⟩ ∈ s.tiers.conversations →
        ∀ r ∈ s.tiers.rows, r.conversationId ≠ conversation

instance (s : Ledger) : (call : Call) → Decidable (Alone s call)
  | .storeUpload _ => .isTrue trivial
  | .deleteUpload _ _ => inferInstanceAs (Decidable (∀ row ∈ _, ∀ r ∈ _, _ → _))
  | .deleteConversation _ _ => inferInstanceAs (Decidable (_ → ∀ r ∈ _, _))

variable {settings : Settings} {t₀ t t' : Tiers} {u : Upload} {th th' : Thread}

def Sized (settings : Settings) (rows : List ConversationFile) (user : Str) (size : Nat) : Prop :=
  settings.maxUserStorageBytes ≠ 0 → size = 0 ∨
    (userStorageUsed rows user : Int) + size ≤ settings.maxUserStorageBytes

def Exceeds (settings : Settings) (rows : List ConversationFile) (user : Str) (size : Nat) : Prop :=
  settings.maxUserStorageBytes ≠ 0 ∧
    settings.maxUserStorageBytes < (userStorageUsed rows user : Int) + size

/-- How a call of `store_upload` that runs by itself has changed the ledger. -/
def Progress (settings : Settings) (s₀ : Ledger) (u : Upload) (s : Ledger) : Thread → Prop
  | .called _ => s.tiers.rows = s₀.tiers.rows ∧ s.written = s₀.written ∧
      s.tiers.blobs u.key = s₀.tiers.blobs u.key
  | .opening _ used => s.tiers.rows = s₀.tiers.rows ∧ s.written = s₀.written ∧
      s.tiers.blobs u.key = s₀.tiers.blobs u.key ∧
      (settings.maxUserStorageBytes ≠ 0 → used = userStorageUsed s₀.tiers.rows u.user)
  | .reading _ used size _ _ => s.tiers.rows = s₀.tiers.rows ∧ s.written = s₀.written ∧
      s.tiers.blobs u.key = s₀.tiers.blobs u.key ∧
      (settings.maxUserStorageBytes ≠ 0 → used = userStorageUsed s₀.tiers.rows u.user) ∧
      Sized settings s₀.tiers.rows u.user size
  | .persisting _ size => s.tiers.rows = s₀.tiers.rows ∧ s.written = s₀.written ∧
      s.tiers.blobs u.key = s₀.tiers.blobs u.key ∧ Sized settings s₀.tiers.rows u.user size
  | .copying _ size _ => s.tiers.rows = s₀.tiers.rows ∧ s.written = s₀.written ∧
      Sized settings s₀.tiers.rows u.user size
  | .committing _ size => s.tiers.rows = s₀.tiers.rows ∧ s.written = s₀.written ++ [u.key] ∧
      Sized settings s₀.tiers.rows u.user size
  | .checking row => s.tiers.rows = s₀.tiers.rows ++ [row] ∧ s.written = s₀.written ++ [u.key] ∧
      Sized settings s₀.tiers.rows u.user row.size
  | .removing row left _ => s.tiers.rows = s₀.tiers.rows ++ [row] ∧
      s.written = s₀.written ++ [u.key] ∧ Sized settings s₀.tiers.rows u.user row.size ∧
      Exceeds settings s₀.tiers.rows u.user row.size ∧
      (left ≠ .blob → s.tiers.blobs u.key = none)
  | .done (.stored row) => s.tiers.rows = s₀.tiers.rows ++ [row] ∧
      s.written = s₀.written ++ [u.key] ∧ ¬ Exceeds settings s₀.tiers.rows u.user row.size
  | .done (.raised _) => s.tiers.rows = s₀.tiers.rows ∧
      (s.written = s₀.written ∧ s.tiers.blobs u.key = s₀.tiers.blobs u.key ∨
        s.written = s₀.written ++ [u.key] ∧ s.tiers.blobs u.key = none ∧
          Sized settings s₀.tiers.rows u.user u.size ∧
          Exceeds settings s₀.tiers.rows u.user u.size)
  | .done .deleted => False
  | .lookingUp _ _ => False

theorem total_checked {rows rows₀ : List ConversationFile}
    (hrows : rows = rows₀ ++ [u.row settings u.size]) :
    (userStorageUsed rows (u.row settings u.size).userId : Int) =
      (userStorageUsed rows₀ u.user : Int) + u.size := by
  have huser : (u.row settings u.size).userId = u.user := rfl
  rw [huser, hrows, userStorageUsed_append, userStorageUsed_row, if_pos rfl, Int.natCast_add]

theorem progress_of_move {s₀ s : Ledger}
    (hknown : ∃ c ∈ s₀.tiers.conversations, c.id = u.conversation)
    (hnew : ∀ r ∈ s₀.tiers.rows, r.id ≠ u.fileId)
    (hconversations : s.tiers.conversations = s₀.tiers.conversations)
    (hown : Own settings u (s.tiers.files (u.dest settings)) (s.tiers.blobs u.key) th)
    (h : Progress settings s₀ u s th) (hmove : Move settings s.tiers .ok th t' th') :
    Progress settings s₀ u ⟨t', s.written ++ keyPut th'⟩ th' := by
  have hsame : s.written ++ [] = s.written := List.append_nil _
  cases hmove with
  | begins w =>
      obtain rfl : w = u := hown
      obtain ⟨hrows, hwritten, hblob⟩ := h
      refine ⟨hrows, hsame.trans hwritten, hblob, fun hquota => ?_⟩
      rw [if_pos hquota, hrows]
  | opens w used =>
      obtain ⟨hrows, hwritten, hblob, hused⟩ := h
      exact ⟨hrows, hsame.trans hwritten, hblob, hused, fun _ => .inl rfl⟩
  | ends hend =>
      obtain ⟨hrows, hwritten, hblob, hused, hsized⟩ := h
      exact ⟨hrows, hsame.trans hwritten, hblob, hsized⟩
  | refuses e hchunk why =>
      obtain ⟨hrows, hwritten, hblob, hused, hsized⟩ := h
      exact ⟨hrows, .inl ⟨hsame.trans hwritten, hblob⟩⟩
  | receives hchunk fits =>
      obtain ⟨hrows, hwritten, hblob, hused, hsized⟩ := h
      refine ⟨hrows, hsame.trans hwritten, hblob, hused, fun hquota => .inr ?_⟩
      rw [← hused hquota]
      exact Int.not_lt.mp fun hlt => fits (.inr (.inr ⟨hquota, hlt⟩))
  | noStore hstore =>
      obtain ⟨hrows, hwritten, hblob, hsized⟩ := h
      exact ⟨hrows, .inl ⟨hsame.trans hwritten, hblob⟩⟩
  | persists hfile =>
      obtain ⟨hrows, hwritten, hblob, hsized⟩ := h
      exact ⟨hrows, hsame.trans hwritten, hsized⟩
  | notPersisted why =>
      obtain ⟨hrows, hwritten, hblob, hsized⟩ := h
      exact ⟨hrows, .inl ⟨hsame.trans hwritten, hblob⟩⟩
  | @copiesOn w size copy copy' hnext =>
      obtain rfl : w = u := hown.1
      obtain ⟨hrows, hwritten, hsized⟩ := h
      obtain ⟨blobs, hcopy, -⟩ :=
        copyStep_blobs settings.backend s.tiers (w.dest settings) w.key copy
      rw [hcopy]
      exact ⟨hrows, hsame.trans hwritten, hsized⟩
  | @copied w size copy hnext =>
      obtain rfl : w = u := hown.1
      obtain ⟨hrows, hwritten, hsized⟩ := h
      obtain ⟨blobs, hcopy, -⟩ :=
        copyStep_blobs settings.backend s.tiers (w.dest settings) w.key copy
      rw [hcopy]
      exact ⟨hrows, by rw [hwritten]; rfl, hsized⟩
  | clashes why =>
      obtain ⟨rfl, -⟩ := hown
      obtain ⟨c, hc, hid⟩ := hknown
      obtain ⟨r, hr, heq⟩ | hall := why
      · exact absurd heq (hnew r (h.1 ▸ hr))
      · exact absurd hid (hall c (hconversations ▸ hc))
  | commits hnew hquota =>
      obtain ⟨rfl, -⟩ := hown
      obtain ⟨hrows, hwritten, hsized⟩ := h
      exact ⟨by rw [hrows], hsame.trans hwritten, hsized⟩
  | stores hnew hquota =>
      obtain ⟨rfl, -⟩ := hown
      obtain ⟨hrows, hwritten, hsized⟩ := h
      exact ⟨by rw [hrows], hsame.trans hwritten, fun hexceeds => hquota hexceeds.1⟩
  | rollsBack hover =>
      obtain ⟨rfl, -, -, -, hquota⟩ := hown
      obtain ⟨hrows, hwritten, hsized⟩ := h
      rw [total_checked hrows] at hover
      exact ⟨hrows, hsame.trans hwritten, hsized, ⟨hquota, hover⟩, fun h => absurd rfl h⟩
  | passes hfits =>
      obtain ⟨rfl, -⟩ := hown
      obtain ⟨hrows, hwritten, hsized⟩ := h
      rw [total_checked hrows] at hfits
      exact ⟨hrows, hsame.trans hwritten, fun hexceeds => hfits hexceeds.2⟩
  | misses hnone => exact h.elim
  | unreached hstore => exact h.elim
  | finds hrow => exact h.elim
  | removesBlob row reply =>
      obtain ⟨rfl, -⟩ := hown
      obtain ⟨hrows, hwritten, hsized, hexceeds, hblob⟩ := h
      refine ⟨hrows, hsame.trans hwritten, hsized, hexceeds, fun _ => ?_⟩
      exact Function.update_self _ _ _
  | removesFile row reply =>
      obtain ⟨hrows, hwritten, hsized, hexceeds, hblob⟩ := h
      exact ⟨hrows, hsame.trans hwritten, hsized, hexceeds, fun _ => hblob (by decide)⟩
  | removesRow row reply =>
      obtain ⟨rfl, rfl, -⟩ := hown
      obtain ⟨hrows, hwritten, hsized, hexceeds, hblob⟩ := h
      refine ⟨?_, .inr ⟨hsame.trans hwritten, hblob (by decide), hsized, hexceeds⟩⟩
      have hkeep : s₀.tiers.rows.filter (·.id ≠ (u.row settings u.size).id) = s₀.tiers.rows :=
        List.filter_eq_self.mpr fun r hr => decide_eq_true (hnew r hr)
      simp only [hrows, List.filter_append, hkeep]
      simp

theorem complete_progress {s₀ s : Ledger} {n : Nat} (hn : rank u th ≤ n)
    (hknown : ∃ c ∈ s₀.tiers.conversations, c.id = u.conversation)
    (hnew : ∀ r ∈ s₀.tiers.rows, r.id ≠ u.fileId) (hframe : Frame settings u s₀.tiers s.tiers)
    (hown : Own settings u (s.tiers.files (u.dest settings)) (s.tiers.blobs u.key) th)
    (h : Progress settings s₀ u s th) (hstock : Stocked settings th) :
    let s' := (complete settings n s th).1
    ∃ reply, Frame settings u s₀.tiers s'.tiers ∧
      Own settings u (s'.tiers.files (u.dest settings)) (s'.tiers.blobs u.key) (.done reply) ∧
      Progress settings s₀ u s' (.done reply) ∧ Stocked settings (.done reply) := by
  induction n generalizing s th with
  | zero =>
      have hdone : ∃ reply, th = .done reply := by
        by_contra hopen
        obtain ⟨⟨t', th'⟩, hstep⟩ := Option.isSome_iff_exists.mp
          (advance_isSome settings s.tiers .ok fun reply heq => hopen ⟨reply, heq⟩)
        have hrank := rank_of_move (move_of_advance hstep) hown
        omega
      obtain ⟨reply, rfl⟩ := hdone
      exact ⟨reply, hframe, hown, h, hstock⟩
  | succ n ih =>
      cases hstep : advance settings s.tiers .ok th with
      | none =>
          have hdone : ∃ reply, th = .done reply := by
            by_contra hopen
            have hsome := advance_isSome settings s.tiers .ok
              fun reply heq => hopen ⟨reply, heq⟩
            rw [hstep] at hsome
            cases hsome
          obtain ⟨reply, rfl⟩ := hdone
          exact ⟨reply, hframe, hown, h, hstock⟩
      | some r =>
          obtain ⟨t', th'⟩ := r
          have hmove := move_of_advance hstep
          have hrank := rank_of_move hmove hown
          simp only [complete, hstep]
          exact ih (by omega) (hframe.trans (frame_of_move hmove hown)) (own_of_move hmove hown)
            (progress_of_move hknown hnew hframe.conversations hown h hmove)
            (stocked_of_move hstock hmove)

/-- What `store_upload` comes to by itself: the upload is turned away, or it is
stored, or it is empty and the user is over the quota. -/
inductive Outcome (settings : Settings) (u : Upload) (s s' : Ledger) : Prop
  | turnedAway (rows : s'.tiers.rows = s.tiers.rows) (written : s'.written = s.written)
      (blobs : ∀ key, s'.tiers.blobs key = s.tiers.blobs key)
  | stored (rows : s'.tiers.rows = s.tiers.rows ++ [u.row settings u.size])
      (written : s'.written = s.written ++ [u.key])
      (blob : s'.tiers.blobs u.key = some u.content)
      (blobs : ∀ key ≠ u.key, s'.tiers.blobs key = s.tiers.blobs key)
      (fits : ¬ Exceeds settings s.tiers.rows u.user u.size) (stock : HasStore settings)
  | rolledBack (rows : s'.tiers.rows = s.tiers.rows) (written : s'.written = s.written ++ [u.key])
      (blob : s'.tiers.blobs u.key = none)
      (blobs : ∀ key ≠ u.key, s'.tiers.blobs key = s.tiers.blobs key)
      (exceeds : Exceeds settings s.tiers.rows u.user 0)

theorem storeUpload_outcome {s s' : Ledger} (h : step settings s (.storeUpload u) = some s') :
    Outcome settings u s s' := by
  simp only [step] at h
  split at h
  next hcall =>
    cases h
    have hrank : rank u (.called u) ≤ steps u := Nat.le_refl _
    have hstart : Progress settings s u s (.called u) := ⟨rfl, rfl, rfl⟩
    obtain ⟨reply, hframe, hown, hprogress, hstock⟩ :=
      complete_progress hrank hcall.1 hcall.2 (.refl u s.tiers) rfl hstart trivial
    generalize (complete settings (steps u) s (.called u)).1 = s' at *
    cases reply with
    | stored row =>
        obtain ⟨rfl, -, hblob, -⟩ := hown
        obtain ⟨hrows, hwritten, hfits⟩ := hprogress
        exact .stored hrows hwritten hblob hframe.blobs hfits hstock
    | deleted => exact hprogress.elim
    | raised e =>
        obtain ⟨hrows, ⟨hwritten, hblob⟩ | ⟨hwritten, hblob, hsized, hquota, hover⟩⟩ := hprogress
        · refine .turnedAway hrows hwritten fun key => ?_
          by_cases hkey : key = u.key
          · rw [hkey, hblob]
          · exact hframe.blobs key hkey
        · refine .rolledBack hrows hwritten hblob hframe.blobs ⟨hquota, ?_⟩
          rcases hsized hquota with hempty | hle
          · rw [hempty] at hover
            exact hover
          · omega
  next => cases h

/-- The rows, the blobs of the uploads and the quota fit together. -/
structure Kept (settings : Settings) (s : Ledger) : Prop where
  keys : ∀ key, (key ∈ s.written ∧ (s.tiers.blobs key).isSome) ↔ ∃ r ∈ s.tiers.rows, r.key = key
  sizes : ∀ key ∈ s.written, ∀ content, s.tiers.blobs key = some content →
    ∃ r ∈ s.tiers.rows, r.key = key ∧ r.size = content.length
  within : ∀ r ∈ s.tiers.rows, settings.maxUserStorageBytes ≠ 0 →
    (userStorageUsed s.tiers.rows r.userId : Int) ≤ settings.maxUserStorageBytes
  names : ∀ r ∈ s.tiers.rows, 47 ∉ r.storedName
  ids : ∀ r ∈ s.tiers.rows, ∀ r' ∈ s.tiers.rows, r.id = r'.id → r = r'
  stock : ∀ r ∈ s.tiers.rows, HasStore settings

theorem sum_le_rows {f : Str → Nat} {keys : List Str} (hkeys : keys.Nodup)
    {rows : List ConversationFile}
    (h : ∀ key ∈ keys, f key = 0 ∨ ∃ r ∈ rows, r.key = key ∧ f key = r.size) :
    (keys.map f).sum ≤ (rows.map ConversationFile.size).sum := by
  induction keys generalizing rows with
  | nil => exact Nat.zero_le _
  | cons key keys ih =>
      rw [List.nodup_cons] at hkeys
      rw [List.forall_mem_cons] at h
      rw [List.map_cons, List.sum_cons]
      rcases h.1 with hzero | ⟨r, hr, hrkey, hsize⟩
      · rw [hzero, Nat.zero_add]
        exact ih hkeys.2 h.2
      · have hsum := ((List.perm_cons_erase hr).map ConversationFile.size).sum_nat
        rw [List.map_cons, List.sum_cons] at hsum
        have hle : (keys.map f).sum ≤ ((rows.erase r).map ConversationFile.size).sum := by
          refine ih hkeys.2 fun k hk => (h.2 k hk).imp_right ?_
          rintro ⟨r', hr', hkey', hsize'⟩
          refine ⟨r', (List.mem_erase_of_ne ?_).mpr hr', hkey', hsize'⟩
          rintro rfl
          exact hkeys.1 (hrkey ▸ hkey' ▸ hk)
        omega

theorem matches_of_kept {s : Ledger} (h : Kept settings s) : Matches s := by
  refine ⟨h.keys, fun keys hkeys hwritten => sum_le_rows hkeys fun key hkey => ?_⟩
  cases hblob : s.tiers.blobs key with
  | none => exact .inl (by rw [stored, hblob]; rfl)
  | some content =>
      obtain ⟨r, hr, hrkey, hsize⟩ := h.sizes key (hwritten key hkey) content hblob
      exact .inr ⟨r, hr, hrkey, by rw [stored, hblob, hsize]; rfl⟩

theorem complete_succ {s : Ledger} {n : Nat} (h : advance settings s.tiers .ok th = some (t', th')) :
    complete settings (n + 1) s th = complete settings n ⟨t', s.written ++ keyPut th'⟩ th' := by
  rw [complete, h]

theorem complete_done (s : Ledger) (n : Nat) (reply : Reply) :
    complete settings n s (.done reply) = (s, .done reply) := by
  cases n <;> rfl

theorem deleteUpload_ledger (s : Ledger) (hstock : ∀ r ∈ s.tiers.rows, HasStore settings)
    (conversation fileId : Str) :
    step settings s (.deleteUpload conversation fileId) = some
      (match s.tiers.rows.find? fun r => r.id = fileId ∧ r.conversationId = conversation with
      | none => s
      | some row => { s with tiers :=
          { (s.tiers.putBlob row.key none).putFile row.path none with
            rows := s.tiers.rows.filter (·.id ≠ row.id) } }) := by
  cases hfind : s.tiers.rows.find? fun r => r.id = fileId ∧ r.conversationId = conversation with
  | none =>
      have hstep : advance settings s.tiers .ok (.lookingUp conversation fileId) =
          some (s.tiers, .done (.raised (.notFound "file not found"))) := by
        simp only [advance, hfind]
      rw [step, complete_succ hstep, complete_done]
      simp only [keyPut, List.append_nil]
  | some row =>
      have hstep : advance settings s.tiers .ok (.lookingUp conversation fileId) =
          some (s.tiers, .removing row .blob .deleted) := by
        obtain ⟨backend, hstore⟩ := hstock row (List.mem_of_find?_eq_some hfind)
        simp only [advance, hfind, hstore]
      rw [step, complete_succ hstep, complete_succ rfl, complete_succ rfl, complete_succ rfl,
        complete]
      simp only [keyPut, List.append_nil]
      rfl

theorem userStorageUsed_filter_le (f : ConversationFile → Bool) (rows : List ConversationFile)
    (user : Str) : userStorageUsed (rows.filter f) user ≤ userStorageUsed rows user :=
  Nat.le_trans (total_filter_le f) (total_mono fun _ _ h => h.1)

theorem Kept.filter {s s' : Ledger} (h : Kept settings s) {f : ConversationFile → Bool}
    (hrows : s'.tiers.rows = s.tiers.rows.filter f) (hwritten : s'.written = s.written)
    (hblobs : ∀ key, s'.tiers.blobs key =
      if ∃ r ∈ s.tiers.rows, r.key = key ∧ f r = false then none else s.tiers.blobs key)
    (hwhole : ∀ r ∈ s.tiers.rows, ∀ r' ∈ s.tiers.rows, r.key = r'.key → f r = f r') :
    Kept settings s' := by
  have hgone (key : Str) : (∃ r ∈ s.tiers.rows, r.key = key ∧ f r = false) →
      ¬ ∃ r ∈ s'.tiers.rows, r.key = key := by
    rintro ⟨r, hr, hkey, hf⟩ ⟨r', hr', hkey'⟩
    rw [hrows, List.mem_filter] at hr'
    rw [hwhole r hr r' hr'.1 (hkey.trans hkey'.symm), hr'.2] at hf
    cases hf
  have hstays {key : Str} (hno : ¬ ∃ r ∈ s.tiers.rows, r.key = key ∧ f r = false) {r : ConversationFile}
      (hr : r ∈ s.tiers.rows) (hkey : r.key = key) : r ∈ s'.tiers.rows := by
    rw [hrows, List.mem_filter]
    refine ⟨hr, ?_⟩
    by_contra hf
    exact hno ⟨r, hr, hkey, Bool.not_eq_true _ ▸ hf⟩
  have hmem {r : ConversationFile} (hr : r ∈ s'.tiers.rows) : r ∈ s.tiers.rows := by
    rw [hrows] at hr
    exact List.mem_of_mem_filter hr
  refine ⟨fun key => ?_, fun key hkey content hblob => ?_, fun r hr hquota => ?_,
    fun r hr => h.names r (hmem hr), fun r hr r' hr' => h.ids r (hmem hr) r' (hmem hr'),
    fun r hr => h.stock r (hmem hr)⟩
  · rw [hwritten, hblobs]
    split
    next hyes => exact iff_of_false (fun h => by cases h.2) (hgone key hyes)
    next hno =>
      rw [h.keys]
      constructor
      · rintro ⟨r, hr, hrkey⟩
        exact ⟨r, hstays hno hr hrkey, hrkey⟩
      · rintro ⟨r, hr, hrkey⟩
        exact ⟨r, hmem hr, hrkey⟩
  · rw [hblobs] at hblob
    split at hblob
    · cases hblob
    next hno =>
      obtain ⟨r, hr, hrkey, hsize⟩ := h.sizes key (hwritten ▸ hkey) content hblob
      exact ⟨r, hstays hno hr hrkey, hrkey, hsize⟩
  · have hle := userStorageUsed_filter_le f s.tiers.rows r.userId
    have hfits := h.within r (hmem hr) hquota
    rw [hrows]
    omega

theorem Kept.of_same {s s' : Ledger} (h : Kept settings s) (hrows : s'.tiers.rows = s.tiers.rows)
    (hkeys : ∀ key, (key ∈ s'.written ∧ (s'.tiers.blobs key).isSome) ↔
      key ∈ s.written ∧ (s.tiers.blobs key).isSome)
    (hblobs : ∀ key, (s'.tiers.blobs key).isSome → s'.tiers.blobs key = s.tiers.blobs key) :
    Kept settings s' := by
  refine ⟨fun key => ?_, fun key hkey content hblob => ?_, ?_, ?_, ?_, ?_⟩
  · rw [hkeys, hrows]
    exact h.keys key
  · have hsome : (s'.tiers.blobs key).isSome := by rw [hblob]; rfl
    have hwritten := ((hkeys key).mp ⟨hkey, hsome⟩).1
    rw [hrows]
    exact h.sizes key hwritten content (hblobs key hsome ▸ hblob)
  · rw [hrows]
    exact h.within
  · rw [hrows]
    exact h.names
  · rw [hrows]
    exact h.ids
  · rw [hrows]
    exact h.stock

theorem rows_of_exceeds {s : Ledger} {user : Str} (h : Kept settings s)
    (hover : Exceeds settings s.tiers.rows user 0) : s.tiers.rows = [] := by
  obtain ⟨hquota, hover⟩ := hover
  rw [List.eq_nil_iff_forall_not_mem]
  intro r hr
  have hfits := h.within r hr hquota
  by_cases hmine : ∃ r' ∈ s.tiers.rows, r'.userId = user
  · obtain ⟨r', hr', rfl⟩ := hmine
    have hfits' := h.within r' hr' hquota
    omega
  · have hnone : userStorageUsed s.tiers.rows user = 0 := by
      rw [userStorageUsed, List.filter_eq_nil_iff.mpr]
      · rfl
      · intro r' hr' huser
        exact hmine ⟨r', hr', of_decide_eq_true huser⟩
    omega

theorem Kept.rolledBack {s s' : Ledger} (h : Kept settings s)
    (rows : s'.tiers.rows = s.tiers.rows) (written : s'.written = s.written ++ [u.key])
    (blob : s'.tiers.blobs u.key = none)
    (blobs : ∀ key ≠ u.key, s'.tiers.blobs key = s.tiers.blobs key)
    (exceeds : Exceeds settings s.tiers.rows u.user 0) : Kept settings s' := by
  have hkey : ¬ (u.key ∈ s.written ∧ (s.tiers.blobs u.key).isSome) := by
    rw [h.keys, rows_of_exceeds h exceeds]
    rintro ⟨r, hr, -⟩
    cases hr
  refine h.of_same rows (fun key => ?_) fun key hsome => blobs key ?_
  · by_cases heq : key = u.key
    · rw [heq, blob]
      exact iff_of_false (fun hsome => by cases hsome.2) hkey
    · rw [written, blobs key heq]
      simp [heq]
  · rintro rfl
    rw [blob] at hsome
    cases hsome

theorem within_stored {rows : List ConversationFile} (h : ∀ r ∈ rows,
      settings.maxUserStorageBytes ≠ 0 →
        (userStorageUsed rows r.userId : Int) ≤ settings.maxUserStorageBytes)
    (fits : ¬ Exceeds settings rows u.user u.size) :
    ∀ r ∈ rows ++ [u.row settings u.size], settings.maxUserStorageBytes ≠ 0 →
      (userStorageUsed (rows ++ [u.row settings u.size]) r.userId : Int) ≤
        settings.maxUserStorageBytes := by
  intro r hr hquota
  rw [userStorageUsed_append, userStorageUsed_row]
  by_cases huser : u.user = r.userId
  · rw [if_pos huser, ← huser]
    exact Int.not_lt.mp fun hlt => fits ⟨hquota, by simpa using hlt⟩
  · rw [if_neg huser]
    obtain hr | rfl := mem_append_singleton.mp hr
    · exact h r hr hquota
    · exact absurd rfl huser

theorem Kept.stored {s s' : Ledger} (h : Kept settings s) (hnew : ∀ r ∈ s.tiers.rows, r.id ≠ u.fileId)
    (rows : s'.tiers.rows = s.tiers.rows ++ [u.row settings u.size])
    (written : s'.written = s.written ++ [u.key]) (blob : s'.tiers.blobs u.key = some u.content)
    (blobs : ∀ key ≠ u.key, s'.tiers.blobs key = s.tiers.blobs key)
    (fits : ¬ Exceeds settings s.tiers.rows u.user u.size) (stock : HasStore settings) :
    Kept settings s' := by
  refine ⟨fun key => ?_, fun key hkey content hblob => ?_, ?_, fun r hr => ?_,
    fun r hr r' hr' => ?_, fun _ _ => stock⟩
  · by_cases heq : key = u.key
    · subst heq
      rw [blob, written, rows]
      refine iff_of_true ⟨by simp, rfl⟩ ⟨u.row settings u.size, by simp, rfl⟩
    · rw [written, rows, blobs key heq]
      have hne : (u.row settings u.size).key ≠ key := Ne.symm heq
      have hkeys := h.keys key
      simp only [mem_append_singleton, heq, or_false, hkeys]
      constructor
      · rintro ⟨r, hr, hrkey⟩
        exact ⟨r, .inl hr, hrkey⟩
      · rintro ⟨r, hr | rfl, hrkey⟩
        · exact ⟨r, hr, hrkey⟩
        · exact absurd hrkey hne
  · rw [rows]
    by_cases heq : key = u.key
    · rw [heq, blob] at hblob
      cases hblob
      exact ⟨u.row settings u.size, by simp, heq.symm, rfl⟩
    · rw [blobs key heq] at hblob
      rw [written, mem_append_singleton] at hkey
      obtain ⟨r, hr, hrkey, hsize⟩ := h.sizes key (hkey.resolve_right heq) content hblob
      exact ⟨r, List.mem_append_left _ hr, hrkey, hsize⟩
  · rw [rows]
    exact within_stored h.within fits
  · rw [rows, mem_append_singleton] at hr
    rcases hr with hr | rfl
    · exact h.names r hr
    · exact slash_not_mem_storedName u.hex _
  · rw [rows, mem_append_singleton] at hr hr'
    intro hid
    rcases hr with hr | rfl <;> rcases hr' with hr' | rfl
    · exact h.ids r hr r' hr' hid
    · exact absurd hid (hnew r hr)
    · exact absurd hid.symm (hnew r' hr')
    · rfl

theorem kept_storeUpload {s s' : Ledger} (h : Kept settings s)
    (hstep : step settings s (.storeUpload u) = some s') : Kept settings s' := by
  have hnew : ∀ r ∈ s.tiers.rows, r.id ≠ u.fileId := by
    simp only [step] at hstep
    split at hstep
    next hcall => exact hcall.2
    next => cases hstep
  cases storeUpload_outcome hstep with
  | turnedAway rows written blobs =>
      exact h.of_same rows (fun key => by rw [written, blobs]) fun key _ => blobs key
  | stored rows written blob blobs fits stock =>
      exact h.stored hnew rows written blob blobs fits stock
  | rolledBack rows written blob blobs exceeds => exact h.rolledBack rows written blob blobs exceeds

theorem kept_step {s s' : Ledger} {call : Call} (h : Kept settings s) (halone : Alone s call)
    (hstep : step settings s call = some s') : Kept settings s' := by
  cases call with
  | storeUpload u => exact kept_storeUpload h hstep
  | deleteUpload conversation fileId =>
      rw [deleteUpload_ledger s h.stock] at hstep
      cases hfind : s.tiers.rows.find? fun r => r.id = fileId ∧ r.conversationId = conversation with
      | none =>
          rw [hfind] at hstep
          cases hstep
          exact h
      | some row =>
          rw [hfind] at hstep
          cases hstep
          have hrow := List.mem_of_find?_eq_some hfind
          have hkey : ∀ r ∈ s.tiers.rows, r.key = row.key ↔ r.id = row.id := fun r hr =>
            ⟨halone row hfind r hr, fun hid => by rw [h.ids r hr row hrow hid]⟩
          refine h.filter (f := fun r => r.id ≠ row.id) rfl rfl (fun key => ?_) fun r hr r' hr' heq => ?_
          · by_cases heq : key = row.key
            · subst heq
              rw [if_pos ⟨row, hrow, rfl, by simp⟩]
              exact Function.update_self _ _ _
            · rw [if_neg]
              · exact Function.update_of_ne heq _ _
              · rintro ⟨r, hr, rfl, hid⟩
                exact heq ((hkey r hr).mpr (by simpa using hid))
          · have hsame : r.id = row.id ↔ r'.id = row.id := by rw [← hkey r hr, ← hkey r' hr', heq]
            simp [hsame]
  | deleteConversation user conversation =>
      cases hstep
      by_cases howned : (⟨conversation, user⟩ : Conversation) ∈ s.tiers.conversations
      · have hnone := halone howned
        refine h.filter (f := fun r => r.conversationId ≠ conversation) ?_ rfl (fun key => ?_)
          fun r hr r' hr' _ => ?_
        · simp only [deleteConversation, if_pos howned]
        · rw [if_neg]
          · simp only [deleteConversation, if_pos howned]
          · rintro ⟨r, hr, -, hconversation⟩
            exact hnone r hr (by simpa using hconversation)
        · simp [hnone r hr, hnone r' hr']
      · simp only [deleteConversation, if_neg howned]
        exact h

theorem alone_of_matches {s s' : Ledger} {call : Call} (h : Kept settings s)
    (hstep : step settings s call = some s') (hmatches : Matches s') : Alone s call := by
  cases call with
  | storeUpload u => trivial
  | deleteUpload conversation fileId =>
      intro row hfind r hr hkey
      rw [deleteUpload_ledger s h.stock, hfind] at hstep
      cases hstep
      by_contra hid
      have hstays := (hmatches.keys r.key).mpr
        ⟨r, List.mem_filter.mpr ⟨hr, decide_eq_true hid⟩, rfl⟩
      have hgone := hstays.2
      rw [hkey] at hgone
      simp [Tiers.putBlob, Tiers.putFile] at hgone
  | deleteConversation user conversation =>
      intro howned r hr hconversation
      cases hstep
      obtain ⟨hwritten, hblob⟩ := (h.keys r.key).mpr ⟨r, hr, rfl⟩
      obtain ⟨r', hr', hkey⟩ := (hmatches.keys r.key).mp
        ⟨hwritten, by simpa only [deleteConversation, if_pos howned] using hblob⟩
      simp only [deleteConversation, if_pos howned, List.mem_filter, decide_eq_true_eq] at hr'
      have hsame := durableKey_inj (h.names r' hr'.1) (h.names r hr) hkey
      exact hr'.2 (hsame.1.trans hconversation)

/-- The durable blobs of uploads match the rows all along exactly when each
conversation that is deleted has no uploads and each upload that is deleted has a
key of its own. -/
theorem matches_iff_alone (settings : Settings) (t : Tiers) (hstart : t.rows = [])
    (calls : List Call) :
    Always (step settings) Matches ⟨t, []⟩ calls ↔ EachStep (step settings) Alone ⟨t, []⟩ calls := by
  refine always_iff_eachStep (J := Kept settings) (fun _ => matches_of_kept)
    (fun _ _ _ => kept_step) (fun _ _ _ => alone_of_matches) (fun s call hstuck => ?_) ?_
  · cases call with
    | storeUpload u => trivial
    | deleteUpload conversation fileId => cases hstuck
    | deleteConversation user conversation => cases hstuck
  · have hnone : ∀ r, r ∉ t.rows := fun r hr => by rw [hstart] at hr; cases hr
    refine ⟨fun key => ?_, fun key hkey => ?_, fun r hr => ?_, fun r hr => ?_, fun r hr => ?_,
      fun r hr => ?_⟩
    · refine iff_of_false (fun h => ?_) fun ⟨r, hr, _⟩ => hnone r hr
      cases h.1
    · cases hkey
    · exact absurd hr (hnone r)
    · exact absurd hr (hnone r)
    · exact absurd hr (hnone r)
    · exact absurd hr (hnone r)

/-- The upload is deleted before its conversation. -/
theorem matches_iff_alone_emptied :
    Always (step tenBytes) Matches ⟨oneConversation, []⟩ [.storeUpload firstSix,
      .deleteUpload "cnv_1" "file_1", .deleteConversation "usr_1" "cnv_1"] :=
  (matches_iff_alone tenBytes oneConversation rfl _).mpr (by decide)

/-- The blob of an upload stays in the store when its conversation is deleted. -/
theorem not_matches_deleted :
    ¬ ∀ (settings : Settings) (t : Tiers), t.rows = [] → ∀ calls : List Call,
      Always (step settings) Matches ⟨t, []⟩ calls := by
  intro h
  have hall := h tenBytes oneConversation rfl
    [.storeUpload firstSix, .deleteConversation "usr_1" "cnv_1"]
  obtain ⟨s, hrun, hwritten, hblob, hrows⟩ : ∃ s, run (step tenBytes) ⟨oneConversation, []⟩
      [.storeUpload firstSix, .deleteConversation "usr_1" "cnv_1"] = some s ∧
      s.written = [firstSix.key] ∧ (s.tiers.blobs firstSix.key).isSome ∧ s.tiers.rows = [] :=
    ⟨_, rfl, by decide, by decide, by decide⟩
  obtain ⟨r, hr, -⟩ := ((hall.final hrun).keys firstSix.key).mp ⟨by rw [hwritten]; simp, hblob⟩
  rw [hrows] at hr
  cases hr

end AgentWeb.DurableRows
