import AgentWeb.UploadFile

namespace AgentWeb.UploadLeftovers

open PyText UploadChecks Uploads UploadFile Transitions

/-- A call of `store_upload` by itself, one operation after the other. -/
def callStep (settings : Settings) (s : Tiers × Thread) (answer : Answer) : Option (Tiers × Thread) :=
  advance settings s.1 answer s.2

/-- A call that has raised has left the workspace, the store and the rows alone. -/
def LeavesNothing (t t' : Tiers) (reply : Reply) : Prop :=
  ∀ e, reply = .raised e → t'.files = t.files ∧ t'.blobs = t.blobs ∧ t'.rows = t.rows

def NewName (settings : Settings) (t : Tiers) (u : Upload) : Prop :=
  t.files (u.dest settings) = none ∧ t.blobs u.key = none

def stored : Copy → Option Nat
  | .start | .gathering _ | .putting _ => none
  | .next written | .writing written _ => some written

/-- An operation after which nothing needs to be removed that the code does not
remove. -/
def Clean (settings : Settings) (s : Tiers × Thread) (answer : Answer) : Prop :=
  match s.2 with
  | .reading _ _ _ _ _ => answer = .ok
  | .persisting _ _ => HasStore settings
  | .copying _ _ copy => answer = .ok ∨ stored copy = none
  | .committing u size => ¬ Clashes s.1 (u.row settings size)
  | .removing _ .blob _ | .removing _ .file _ => answer = .ok
  | _ => True

/-- An operation after which a name that was taken already holds what it held: nothing
where the code removes the file, and what the call has written where it does not. -/
def Spared (settings : Settings) (t₀ : Tiers) (u : Upload) (s : Tiers × Thread) (answer : Answer) :
    Prop :=
  let file := t₀.files (u.dest settings)
  let blob := t₀.blobs u.key
  match s.2 with
  | .reading _ used size first body => match answer with
      | .ok => ∀ chunk ∈ body.head?, chunk ≠ [] → Refused settings used size first chunk →
          file = none
      | .fails => file = some (u.content.take size)
  | .persisting _ _ =>
      (HasStore settings → answer = .fails → file = none) ∧
        (¬ HasStore settings → file = some u.content)
  | .copying _ _ copy => answer = .fails →
      file = none ∧ ∀ written ∈ stored copy, blob = some (u.content.take written)
  | .committing _ size => Clashes s.1 (u.row settings size) →
      file = some u.content ∧ blob = some u.content
  | .removing _ .blob _ => blob = if answer = .ok then none else some u.content
  | .removing _ .file _ => file = if answer = .ok then none else some u.content
  | _ => True

structure Around (settings : Settings) (t₀ : Tiers) (u : Upload) (rows : List ConversationFile)
    (t : Tiers) : Prop where
  rows : t.rows = t₀.rows ++ rows
  files : ∀ path ≠ u.dest settings, t.files path = t₀.files path
  blobs : ∀ key ≠ u.key, t.blobs key = t₀.blobs key

def Reached (settings : Settings) (t₀ : Tiers) (u : Upload) (t : Tiers) : Thread → Prop
  | .called _ | .opening _ _ => t = t₀
  | .reading _ _ _ _ _ | .persisting _ _ =>
      Around settings t₀ u [] t ∧ t.blobs u.key = t₀.blobs u.key
  | .copying _ _ copy =>
      Around settings t₀ u [] t ∧ (stored copy = none → t.blobs u.key = t₀.blobs u.key)
  | .committing _ _ | .done (.raised _) => Around settings t₀ u [] t
  | .checking row => Around settings t₀ u [row] t ∧ ∀ r ∈ t₀.rows, r.id ≠ row.id
  | .removing row left _ => Around settings t₀ u [row] t ∧ (∀ r ∈ t₀.rows, r.id ≠ row.id) ∧
      (left ≠ .row → t.files (u.dest settings) = some u.content) ∧
      (left = .blob → t.blobs u.key = some u.content)
  | .done (.stored _) | .done .deleted | .lookingUp _ _ => True

structure Underway (settings : Settings) (t₀ : Tiers) (u : Upload) (s : Tiers × Thread) : Prop where
  own : Own settings u (s.1.files (u.dest settings)) (s.1.blobs u.key) s.2
  reached : Reached settings t₀ u s.1 s.2

def Restored (settings : Settings) (t₀ : Tiers) (u : Upload) (t : Tiers) : Thread → Prop
  | .removing _ .file _ => t.blobs u.key = t₀.blobs u.key
  | .removing _ .row _ | .done (.raised _) =>
      t.files (u.dest settings) = t₀.files (u.dest settings) ∧ t.blobs u.key = t₀.blobs u.key
  | _ => True

variable {settings : Settings} {t₀ t t' : Tiers} {u : Upload} {th th' : Thread}
  {rows : List ConversationFile} {answer : Answer}

namespace Around

theorem start : Around settings t₀ u [] t₀ := ⟨(List.append_nil _).symm, fun _ _ => rfl, fun _ _ => rfl⟩

theorem same_iff (h : Around settings t₀ u [] t) :
    (t.files = t₀.files ∧ t.blobs = t₀.blobs ∧ t.rows = t₀.rows) ↔
      t.files (u.dest settings) = t₀.files (u.dest settings) ∧ t.blobs u.key = t₀.blobs u.key := by
  constructor
  · rintro ⟨hfiles, hblobs, -⟩
    exact ⟨congrFun hfiles _, congrFun hblobs _⟩
  · rintro ⟨hfile, hblob⟩
    refine ⟨funext fun path => ?_, funext fun key => ?_, by rw [h.rows, List.append_nil]⟩
    · by_cases hpath : path = u.dest settings
      · rw [hpath, hfile]
      · exact h.files path hpath
    · by_cases hkey : key = u.key
      · rw [hkey, hblob]
      · exact h.blobs key hkey

theorem putFile (h : Around settings t₀ u rows t) (content : Option Bytes) :
    Around settings t₀ u rows (t.putFile (u.dest settings) content) where
  rows := h.rows
  files path hpath := (Function.update_of_ne hpath _ _).trans (h.files path hpath)
  blobs := h.blobs

theorem putBlob (h : Around settings t₀ u rows t) (content : Option Bytes) :
    Around settings t₀ u rows (t.putBlob u.key content) where
  rows := h.rows
  files := h.files
  blobs key hkey := (Function.update_of_ne hkey _ _).trans (h.blobs key hkey)

theorem copyStep (h : Around settings t₀ u rows t) (copy : Copy) :
    Around settings t₀ u rows
      (Uploads.copyStep settings.backend t (u.dest settings) u.key copy).1 := by
  obtain ⟨blobs, heq, hsame⟩ := copyStep_blobs settings.backend t (u.dest settings) u.key copy
  rw [heq]
  exact ⟨h.rows, h.files, fun key hkey => (hsame key hkey).trans (h.blobs key hkey)⟩

theorem commit {row : ConversationFile} (h : Around settings t₀ u [] t) :
    Around settings t₀ u [row] { t with rows := t.rows ++ [row] } where
  rows := by rw [h.rows, List.append_nil]
  files := h.files
  blobs := h.blobs

theorem removeRow {row : ConversationFile} (hrow : ∀ r ∈ t₀.rows, r.id ≠ row.id)
    (h : Around settings t₀ u [row] t) :
    Around settings t₀ u [] { t with rows := t.rows.filter (·.id ≠ row.id) } where
  rows := by
    have hkeep : t₀.rows.filter (·.id ≠ row.id) = t₀.rows :=
      List.filter_eq_self.mpr fun r hr => decide_eq_true (hrow r hr)
    rw [h.rows, List.filter_append, hkeep]
    simp
  files := h.files
  blobs := h.blobs

theorem newId {size : Nat} (h : Around settings t₀ u [] t)
    (hnew : ¬ Clashes t (u.row settings size)) :
    ∀ r ∈ t₀.rows, r.id ≠ (u.row settings size).id := by
  intro r hr heq
  refine hnew (.inl ⟨r, ?_, heq⟩)
  rw [h.rows, List.append_nil]
  exact hr

end Around

theorem copyStep_unstored (settings : Settings) (t : Tiers) (u : Upload) (copy : Copy) {copy' : Copy}
    (hnext : (copyStep settings.backend t (u.dest settings) u.key copy).2 = some copy')
    (hcopy : stored copy' = none) :
    stored copy = none ∧
      (copyStep settings.backend t (u.dest settings) u.key copy).1.blobs u.key = t.blobs u.key := by
  cases copy with
  | start =>
      cases hbackend : settings.backend with
      | s3 => exact ⟨rfl, rfl⟩
      | localDisk =>
          rw [hbackend] at hnext
          cases hnext
          cases hcopy
  | gathering data =>
      refine ⟨rfl, ?_⟩
      simp only [copyStep]
      split <;> rfl
  | putting data => cases hnext
  | next written =>
      simp only [copyStep] at hnext
      split at hnext
      · cases hnext
      · cases hnext
        cases hcopy
  | writing written chunk =>
      cases hnext
      cases hcopy

theorem reached_of_move (hmove : Move settings t answer th t' th')
    (hown : Own settings u (t.files (u.dest settings)) (t.blobs u.key) th)
    (h : Reached settings t₀ u t th) : Reached settings t₀ u t' th' := by
  cases hmove with
  | begins w => exact h
  | opens w used =>
      obtain rfl : w = u := hown
      obtain rfl : t = t₀ := h
      exact ⟨Around.start.putFile _, rfl⟩
  | notOpened w used =>
      obtain rfl : t = t₀ := h
      exact .start
  | ends hend => exact h
  | refuses e hchunk why =>
      obtain rfl := hown.1
      exact h.1.putFile none
  | receives hchunk fits =>
      obtain rfl := hown.1
      exact ⟨h.1.putFile _, h.2⟩
  | notRead => exact h.1
  | noStore hstore => exact h.1
  | persists hfile hstore => exact ⟨h.1, fun _ => h.2⟩
  | notPersisted why hstore =>
      obtain rfl := hown.1
      exact h.1.putFile none
  | @copiesOn w size copy copy' hnext =>
      obtain rfl : w = u := hown.1
      refine ⟨h.1.copyStep copy, fun hcopy => ?_⟩
      have hkept := copyStep_unstored settings t w copy hnext hcopy
      exact hkept.2.trans (h.2 hkept.1)
  | @copied w size copy hnext =>
      obtain rfl : w = u := hown.1
      exact h.1.copyStep copy
  | notCopied =>
      obtain rfl := hown.1
      exact h.1.putFile none
  | clashes why => exact h
  | commits hnew hquota =>
      obtain rfl := hown.1
      exact ⟨Around.commit h, Around.newId h hnew⟩
  | stores hnew hquota => trivial
  | rollsBack hover => exact ⟨h.1, h.2, fun _ => hown.2.1, fun _ => hown.2.2.1⟩
  | passes hfits => trivial
  | misses hnone => exact hown.elim
  | unreached hstore => exact hown.elim
  | finds hrow hstore => exact hown.elim
  | removesBlob row reply =>
      obtain ⟨haround, hrow, hfile, -⟩ := h
      obtain rfl := hown.1
      split
      · exact ⟨haround.putBlob none, hrow, fun _ => hfile nofun, nofun⟩
      · exact ⟨haround, hrow, fun _ => hfile nofun, nofun⟩
  | removesFile row reply =>
      obtain ⟨haround, hrow, -⟩ := h
      obtain rfl := hown.1
      split
      · exact ⟨haround.putFile none, hrow, fun hleft => absurd rfl hleft, nofun⟩
      · exact ⟨haround, hrow, fun hleft => absurd rfl hleft, nofun⟩
  | removesRow row reply =>
      obtain ⟨-, rfl, -⟩ := hown
      exact h.1.removeRow h.2.1

theorem restored_iff_stored {blob old : Option Bytes} {content : Bytes} {written : Nat}
    (hblob : blob = some (content.take written)) :
    blob = old ↔ ∀ n ∈ some written, old = some (content.take n) := by
  rw [hblob, eq_comm]
  simp

theorem restored_iff_of_move (hmove : Move settings t answer th t' th')
    (hown : Own settings u (t.files (u.dest settings)) (t.blobs u.key) th)
    (h : Reached settings t₀ u t th) :
    Restored settings t₀ u t' th' ↔
      Restored settings t₀ u t th ∧ Spared settings t₀ u (t, th) answer := by
  have hremoved : (t.putFile (u.dest settings) none).files (u.dest settings) = none :=
    Function.update_self ..
  cases hmove with
  | begins w => exact iff_of_true trivial ⟨trivial, trivial⟩
  | opens w used => exact iff_of_true trivial ⟨trivial, trivial⟩
  | notOpened w used =>
      obtain rfl : t = t₀ := h
      exact iff_of_true ⟨rfl, rfl⟩ ⟨trivial, trivial⟩
  | ends hend =>
      refine iff_of_true trivial ⟨trivial, fun chunk hchunk hne => ?_⟩
      obtain ⟨body, rfl⟩ := List.head?_eq_some_iff.mp hchunk
      exact absurd (chunk_of_toCome_nil hend) hne
  | @refuses w used size first chunk body e hchunk why =>
      obtain rfl : w = u := hown.1
      have hspared : Spared settings t₀ w (t, .reading w used size first (chunk :: body)) .ok ↔
          t₀.files (w.dest settings) = none :=
        ⟨fun hspared => hspared chunk rfl hchunk why, fun hnone _ _ _ _ => hnone⟩
      rw [hspared, Restored, hremoved, eq_comm]
      exact ⟨fun hsame => ⟨trivial, hsame.1⟩, fun hsame => ⟨hsame.2, h.2⟩⟩
  | receives hchunk fits =>
      refine iff_of_true trivial ⟨trivial, ?_⟩
      rintro chunk ⟨⟩ - why
      exact absurd why fits
  | @notRead w used size first body =>
      obtain ⟨rfl, ⟨content, hfile, hsize, hcontent⟩, -⟩ := hown
      have hwritten : w.content.take size = content := by rw [← hcontent, hsize, List.take_left]
      simp only [Restored, Spared, hwritten, hfile, true_and]
      exact ⟨fun hsame => hsame.1.symm, fun hsame => ⟨hsame.symm, h.2⟩⟩
  | @noStore answer w size e hstore =>
      obtain ⟨rfl, -, hfile, -⟩ := hown
      simp only [Restored, Spared, hfile, not_hasStore hstore, false_implies, not_false_eq_true,
        true_implies, true_and]
      exact ⟨fun hsame => hsame.1.symm, fun hsame => ⟨hsame.symm, h.2⟩⟩
  | @persists w size backend hfile hstore =>
      have hhas : HasStore settings := ⟨backend, hstore⟩
      exact iff_of_true trivial ⟨trivial, fun _ => nofun, fun hno => absurd hhas hno⟩
  | @notPersisted answer w size backend why hstore =>
      obtain ⟨rfl, -, hfile, -⟩ := hown
      have hhas : HasStore settings := ⟨backend, hstore⟩
      have hfails : answer = .fails := by
        cases answer with
        | ok => exact absurd ⟨rfl, by rw [hfile]; rfl⟩ why
        | fails => rfl
      simp only [Restored, Spared, hremoved, hhas, hfails, not_true_eq_false, false_implies,
        true_implies, and_true, true_and]
      exact ⟨fun hsame => hsame.1.symm, fun hnone => ⟨hnone.symm, h.2⟩⟩
  | copiesOn hnext => exact iff_of_true trivial ⟨trivial, nofun⟩
  | copied hnext => exact iff_of_true trivial ⟨trivial, nofun⟩
  | @notCopied w size copy =>
      obtain ⟨rfl, -, -, hcopied, -⟩ := hown
      simp only [Restored, Spared, hremoved, true_implies, true_and]
      refine and_congr eq_comm ?_
      cases copy with
      | start | gathering | putting => exact iff_of_true (h.2 rfl) nofun
      | next written => exact restored_iff_stored hcopied.2
      | writing written chunk => exact restored_iff_stored hcopied.2.1
  | @clashes answer w size why =>
      obtain ⟨rfl, -, hfile, hblob, -⟩ := hown
      simp only [Restored, Spared, hfile, hblob, true_and]
      rw [imp_iff_right why, eq_comm, @eq_comm _ (t₀.blobs w.key)]
  | commits hnew hquota =>
      exact iff_of_true trivial ⟨trivial, fun hclash => absurd hclash (hown.1 ▸ hnew)⟩
  | stores hnew hquota =>
      exact iff_of_true trivial ⟨trivial, fun hclash => absurd hclash (hown.1 ▸ hnew)⟩
  | rollsBack hover => exact iff_of_true trivial ⟨trivial, trivial⟩
  | passes hfits => exact iff_of_true trivial ⟨trivial, trivial⟩
  | misses hnone => exact hown.elim
  | unreached hstore => exact hown.elim
  | finds hrow hstore => exact hown.elim
  | removesBlob row reply =>
      obtain ⟨rfl, -, -⟩ := hown
      have hblob : (if answer = .ok then t.putBlob u.key none else t).blobs u.key =
          if answer = .ok then none else some u.content := by
        split
        · exact Function.update_self ..
        · exact h.2.2.2 rfl
      simp only [Restored, Spared, true_and]
      rw [← hblob, eq_comm]
      rfl
  | removesFile row reply =>
      obtain ⟨rfl, -, -⟩ := hown
      have hfile : (if answer = .ok then t.putFile (u.dest settings) none else t).files
          (u.dest settings) = if answer = .ok then none else some u.content := by
        split
        · exact Function.update_self ..
        · exact h.2.2.1 nofun
      have hblob : (if answer = .ok then t.putFile (u.dest settings) none else t).blobs u.key =
          t.blobs u.key := by
        split <;> rfl
      simp only [Restored, Spared]
      rw [and_comm, ← hfile, ← hblob]
      exact and_congr_right fun _ => eq_comm
  | removesRow row reply =>
      obtain ⟨-, rfl, -⟩ := hown
      exact (and_iff_left trivial).symm

theorem spared_iff_clean (hnew : NewName settings t₀ u) (s : Tiers × Thread) (answer : Answer)
    (hown : Own settings u (s.1.files (u.dest settings)) (s.1.blobs u.key) s.2) :
    Spared settings t₀ u s answer ↔ Clean settings s answer := by
  obtain ⟨t, th⟩ := s
  cases th with
  | reading w used size first body => cases answer <;> simp [Spared, Clean, hnew.1]
  | persisting w size => simp [Spared, Clean, hnew.1]
  | copying w size copy => cases answer <;> cases copy <;> simp [Spared, Clean, stored, hnew.1, hnew.2]
  | committing w size =>
      obtain rfl : w = u := hown.1
      simp [Spared, Clean, hnew.1]
  | removing row left reply =>
      cases left <;> cases answer <;> simp [Spared, Clean, hnew.1, hnew.2]
  | _ => rfl

section Run

variable {answers : List Answer} {reply : Reply}

theorem restored_iff_leavesNothing (h : Underway settings t₀ u (t', .done reply)) :
    Restored settings t₀ u t' (.done reply) ↔ LeavesNothing t₀ t' reply := by
  cases reply with
  | stored row => exact iff_of_true trivial nofun
  | deleted => exact h.own.elim
  | raised e =>
      have hall : LeavesNothing t₀ t' (.raised e) ↔
          t'.files = t₀.files ∧ t'.blobs = t₀.blobs ∧ t'.rows = t₀.rows :=
        ⟨fun h => h e rfl, fun h _ _ => h⟩
      rw [hall]
      exact (Around.same_iff h.reached).symm

theorem move_of_callStep {s s' : Tiers × Thread} (h : callStep settings s answer = some s') :
    Move settings s.1 answer s.2 s'.1 s'.2 :=
  move_of_advance h

theorem underway_of_step (s : Tiers × Thread) (answer : Answer) (s' : Tiers × Thread)
    (h : Underway settings t₀ u s) (hstep : callStep settings s answer = some s') :
    Underway settings t₀ u s' where
  own := own_of_move (move_of_callStep hstep) h.own
  reached := reached_of_move (move_of_callStep hstep) h.own h.reached

theorem underway_called : Underway settings t u (t, .called u) := ⟨rfl, rfl⟩

theorem leavesNothing_iff_spared
    (hrun : run (callStep settings) (t, .called u) answers = some (t', .done reply)) :
    LeavesNothing t t' reply ↔
      EachStep (callStep settings) (Spared settings t u) (t, .called u) answers := by
  have hend : Underway settings t u (t', .done reply) :=
    run_invariant underway_of_step underway_called hrun
  have hfinal := final_iff_eachStep (G := fun s => Restored settings t u s.1 s.2) underway_of_step
    (fun s answer s' h hstep => restored_iff_of_move (move_of_callStep hstep) h.own h.reached)
    underway_called hrun
  rw [← restored_iff_leavesNothing hend]
  exact hfinal.trans (and_iff_right trivial)

theorem eachStep_spared_iff_clean (hnew : NewName settings t u) :
    EachStep (callStep settings) (Spared settings t u) (t, .called u) answers ↔
      EachStep (callStep settings) (Clean settings) (t, .called u) answers :=
  eachStep_congr underway_of_step (fun s answer h => spared_iff_clean hnew s answer h.own)
    underway_called

/-- Where an upload that fails leaves nothing behind: under a name that is not taken, no
operation fails for which the code has no cleanup; under one that is, it is spared. -/
theorem storeUpload_leavesNothing_iff
    (hrun : run (callStep settings) (t, .called u) answers = some (t', .done reply)) :
    LeavesNothing t t' reply ↔
      (NewName settings t u ∧
        EachStep (callStep settings) (Clean settings) (t, .called u) answers) ∨
      (¬ NewName settings t u ∧
        EachStep (callStep settings) (Spared settings t u) (t, .called u) answers) := by
  rw [leavesNothing_iff_spared hrun]
  by_cases hnew : NewName settings t u
  · simp only [hnew, true_and, not_true_eq_false, false_and, or_false]
    exact eachStep_spared_iff_clean hnew
  · simp only [hnew, false_and, not_false_eq_true, true_and, false_or]

end Run

/-- A file of six bytes where five are allowed. -/
theorem storeUpload_leavesNothing_large :
    let settings := { tenBytes with maxUploadBytes := 5 }
    let t' := (oneConversation.putFile (firstSix.dest settings) (some [])).putFile
      (firstSix.dest settings) none
    LeavesNothing oneConversation t' (.raised (.payloadTooLarge "file too large")) ↔
      (NewName settings oneConversation firstSix ∧
        EachStep (callStep settings) (Clean settings) (oneConversation, .called firstSix)
          [.ok, .ok, .ok]) ∨
      (¬ NewName settings oneConversation firstSix ∧
        EachStep (callStep settings) (Spared settings oneConversation firstSix)
          (oneConversation, .called firstSix) [.ok, .ok, .ok]) :=
  storeUpload_leavesNothing_iff rfl

/-- Where the first chunk cannot be read, the file that was opened for it stays. -/
theorem not_leavesNothing_unread :
    ¬ ∀ (settings : Settings) (t t' : Tiers) (u : Upload) (answers : List Answer) (reply : Reply),
      NewName settings t u →
      run (callStep settings) (t, .called u) answers = some (t', .done reply) →
        LeavesNothing t t' reply := by
  intro h
  have hrun : run (callStep tenBytes) (oneConversation, .called firstSix) [.ok, .ok, .fails] =
      some (oneConversation.putFile (firstSix.dest tenBytes) (some []),
        .done (.raised .osError)) := rfl
  obtain ⟨hfiles, -, -⟩ := h tenBytes _ _ firstSix _ _ ⟨rfl, rfl⟩ hrun .osError rfl
  have hopened : (oneConversation.putFile (firstSix.dest tenBytes) (some [])).files
      (firstSix.dest tenBytes) = some [] := by simp [Tiers.putFile]
  rw [hfiles] at hopened
  cases hopened

end AgentWeb.UploadLeftovers
