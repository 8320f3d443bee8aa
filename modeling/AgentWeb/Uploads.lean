import AgentWeb.Interleaving
import AgentWeb.UploadChecks
import Mathlib.Algebra.Ring.Nat

namespace AgentWeb.Uploads

open PyText UploadChecks Interleaving

inductive Backend
  | localDisk
  | s3
deriving DecidableEq

structure Settings where
  /-- `harness.cwd`, which is empty if it is not set. -/
  cwd : Str
  workspaceRoot : Str
  maxUploadBytes : Int
  maxUserStorageBytes : Int
  uploadAllowedTypes : List Str
  /-- `storage.backend`, which is any text. -/
  storageBackend : Str
  s3Bucket : Str

abbrev Path := Str × Str

structure ConversationFile where
  id : Str
  conversationId : Str
  userId : Str
  filename : Str
  storedName : Str
  size : Nat
  path : Path
deriving DecidableEq

structure Conversation where
  id : Str
  userId : Str
deriving DecidableEq

/-- The committed rows, the files of the workspaces and the durable store. -/
structure Tiers where
  conversations : List Conversation
  rows : List ConversationFile
  files : Path → Option Bytes
  blobs : Str → Option Bytes

inductive Error
  | invalidRequest (detail : Str)
  | payloadTooLarge (detail : Str)
  | notFound (detail : Str)
  | integrityError
  | osError
  | storageError
  | valueError
deriving DecidableEq

/-- The store that the settings choose. `S3Storage` wants a bucket. -/
def getStorage (settings : Settings) : Except Error Backend :=
  if settings.storageBackend = "local" then .ok .localDisk
  else if settings.storageBackend = "s3" then
    if settings.s3Bucket = [] then .error .storageError else .ok .s3
  else .error .valueError

def Settings.backend (settings : Settings) : Backend :=
  if settings.storageBackend = "local" then .localDisk else .s3

def HasStore (settings : Settings) : Prop := ∃ backend, getStorage settings = .ok backend

instance (settings : Settings) : Decidable (HasStore settings) :=
  match h : getStorage settings with
  | .ok backend => .isTrue ⟨backend, h⟩
  | .error _ => .isFalse fun hstore => by
      obtain ⟨backend, hbackend⟩ := hstore
      cases h.symm.trans hbackend

theorem not_hasStore {settings : Settings} {e : Error} (h : getStorage settings = .error e) :
    ¬ HasStore settings := by
  rintro ⟨backend, hbackend⟩
  cases h.symm.trans hbackend

/-- The store that a call gets is of the class that the steps of the call read. -/
theorem backend_of_getStorage {settings : Settings} {backend : Backend}
    (h : getStorage settings = .ok backend) : settings.backend = backend := by
  rw [getStorage] at h
  rw [Settings.backend]
  split at h
  next hlocal =>
    cases h
    rw [if_pos hlocal]
  next hlocal =>
    rw [if_neg hlocal]
    split at h
    next =>
      split at h
      · cases h
      · cases h
        rfl
    next => cases h

/-- What `list_artifacts` tells of a file. -/
structure ArtifactInfo where
  name : Str
  size : Nat
deriving DecidableEq

inductive Answer
  | ok
  | fails
deriving DecidableEq

def conversationWorkspace (settings : Settings) (conversationId : Str) : Str :=
  if settings.cwd ≠ [] then settings.cwd else settings.workspaceRoot ++ "/" ++ conversationId

def userStorageUsed (rows : List ConversationFile) (userId : Str) : Nat :=
  ((rows.filter (·.userId = userId)).map ConversationFile.size).sum

def total (p : ConversationFile → Prop) [DecidablePred p] (rows : List ConversationFile) : Nat :=
  ((rows.filter p).map ConversationFile.size).sum

section

variable {p q : ConversationFile → Prop} [DecidablePred p] [DecidablePred q]
  {rows : List ConversationFile}

theorem total_mono (h : ∀ r ∈ rows, p r → q r) : total p rows ≤ total q rows := by
  induction rows with
  | nil => exact Nat.le_refl _
  | cons r rows ih =>
      rw [List.forall_mem_cons] at h
      have hle := ih h.2
      simp only [total] at hle ⊢
      by_cases hp : p r
      · simp [hp, h.1 hp, hle]
      · by_cases hq : q r
        · simp [hp, hq]
          omega
        · simp [hp, hq, hle]

theorem total_append_neg {row : ConversationFile} (h : ¬ p row) :
    total p (rows ++ [row]) = total p rows := by
  simp [total, h]

theorem total_filter_le (f : ConversationFile → Bool) :
    total p (rows.filter f) ≤ total (fun r => p r ∧ f r) rows := by
  have hsame : (rows.filter f).filter p = rows.filter fun r => p r ∧ f r := by
    rw [List.filter_filter]
    congr 1
    funext r
    simp
  rw [total, total, hsame]

end

theorem userStorageUsed_append (rows rows' : List ConversationFile) (user : Str) :
    userStorageUsed (rows ++ rows') user = userStorageUsed rows user + userStorageUsed rows' user := by
  simp [userStorageUsed]

/-- A call of `store_upload`: its arguments, the chunks that `read_chunk` gives
and what it draws at random. -/
structure Upload where
  user : Str
  conversation : Str
  filename : Option Str
  body : List Bytes
  hex : Hex8
  fileId : Str
deriving DecidableEq

namespace Upload

variable (u : Upload)

def clean : Str := safeFilename (orElse (u.filename.getD []) "upload")

def storedName : Str := UploadChecks.storedName u.hex u.clean

def dest (settings : Settings) : Path := (conversationWorkspace settings u.conversation, u.storedName)

def key : Str := durableKey u.conversation u.storedName

def row (settings : Settings) (size : Nat) : ConversationFile where
  id := u.fileId
  conversationId := u.conversation
  userId := u.user
  filename := u.clean
  storedName := u.storedName
  size := size
  path := u.dest settings

end Upload

theorem userStorageUsed_row (u : Upload) (settings : Settings) (size : Nat) (user : Str) :
    userStorageUsed [u.row settings size] user = if u.user = user then size else 0 := by
  by_cases huser : u.user = user <;> simp [userStorageUsed, Upload.row, huser]

def toCome (body : List Bytes) : Bytes := (body.takeWhile (· ≠ [])).flatten

@[simp] theorem toCome_nil : toCome [] = [] := rfl

@[simp] theorem toCome_end (body : List Bytes) : toCome ([] :: body) = [] := rfl

def Upload.content (u : Upload) : Bytes := toCome u.body

def Upload.size (u : Upload) : Nat := u.content.length

def ConversationFile.key (row : ConversationFile) : Str := durableKey row.conversationId row.storedName

def patch (content : Bytes) (offset : Nat) (bs : Bytes) : Bytes :=
  content.take offset ++ List.replicate (offset - content.length) 0 ++ bs ++
    content.drop (offset + bs.length)

namespace Tiers

variable (t : Tiers)

def putFile (path : Path) (content : Option Bytes) : Tiers :=
  { t with files := Function.update t.files path content }

def putBlob (key : Str) (content : Option Bytes) : Tiers :=
  { t with blobs := Function.update t.blobs key content }

/-- Bytes are written to an open file. A file that has been unlinked is gone. -/
def writeFile (path : Path) (offset : Nat) (bs : Bytes) : Tiers :=
  t.putFile path ((t.files path).map fun content => patch content offset bs)

def writeBlob (key : Str) (offset : Nat) (bs : Bytes) : Tiers :=
  t.putBlob key ((t.blobs key).map fun content => patch content offset bs)

def readFile (path : Path) (offset : Nat) : Bytes := ((t.files path).getD []).drop offset

end Tiers

/-- `_CHUNK`. -/
def chunkSize : Nat := 1024 * 1024

/-- How far `put_stream` has come with a file that it copies to a key. -/
inductive Copy
  | start
  /-- `S3Storage` reads to the end, which it notices once there is no more. -/
  | gathering (data : Bytes)
  | putting (data : Bytes)
  /-- `LocalStorage` reads and writes chunks. -/
  | next (written : Nat)
  | writing (written : Nat) (chunk : Bytes)
deriving DecidableEq

/-- The next step of `put_stream`, until it has returned. -/
def copyStep (backend : Backend) (t : Tiers) (source : Path) (key : Str) :
    Copy → Tiers × Option Copy
  | .start =>
      match backend with
      | .s3 => (t, some (.gathering []))
      | .localDisk => (t.putBlob key (some []), some (.next 0))
  | .gathering data =>
      let more := t.readFile source data.length
      if more = [] then (t, some (.putting data)) else (t, some (.gathering (data ++ more)))
  | .putting data => (t.putBlob key (some data), none)
  | .next written =>
      let chunk := (t.readFile source written).take chunkSize
      if chunk = [] then (t, none) else (t, some (.writing written chunk))
  | .writing written chunk =>
      (t.writeBlob key written chunk, some (.next (written + chunk.length)))

theorem copyStep_blobs (backend : Backend) (t : Tiers) (source : Path) (key : Str) (copy : Copy) :
    ∃ blobs, (copyStep backend t source key copy).1 = { t with blobs := blobs } ∧
      ∀ k ≠ key, blobs k = t.blobs k := by
  have hput : ∀ content, ∀ k ≠ key, (t.putBlob key content).blobs k = t.blobs k :=
    fun content k hk => Function.update_of_ne hk _ _
  cases copy with
  | start =>
      cases backend with
      | s3 => exact ⟨t.blobs, rfl, fun k _ => rfl⟩
      | localDisk => exact ⟨_, rfl, hput _⟩
  | gathering data =>
      refine ⟨t.blobs, ?_, fun k _ => rfl⟩
      simp only [copyStep]
      split <;> rfl
  | putting data => exact ⟨_, rfl, hput _⟩
  | next written =>
      refine ⟨t.blobs, ?_, fun k _ => rfl⟩
      simp only [copyStep]
      split <;> rfl
  | writing written chunk => exact ⟨_, rfl, hput _⟩

inductive Removal
  | blob
  | file
  | row
deriving DecidableEq

inductive Reply
  | stored (row : ConversationFile)
  | deleted
  | raised (e : Error)
deriving DecidableEq

/-- A call of `store_upload` or `delete_upload`, at the point it has reached. -/
inductive Thread
  | called (u : Upload)
  | opening (u : Upload) (used : Nat)
  | reading (u : Upload) (used size : Nat) (first : Bool) (body : List Bytes)
  | persisting (u : Upload) (size : Nat)
  | copying (u : Upload) (size : Nat) (copy : Copy)
  | committing (u : Upload) (size : Nat)
  | checking (row : ConversationFile)
  | lookingUp (conversation fileId : Str)
  /-- The removal that both calls end with, and what it is followed by. -/
  | removing (row : ConversationFile) (left : Removal) (reply : Reply)
  | done (reply : Reply)
deriving DecidableEq

def quotaExceeded : Reply := .raised (.payloadTooLarge "storage quota exceeded")

variable (settings : Settings)

/-- A chunk that has come: it is written, unless the upload is turned away. -/
def receiveChunk (t : Tiers) (u : Upload) (used size : Nat) (first : Bool) (chunk : Bytes)
    (body : List Bytes) : Tiers × Thread :=
  let turnAway (e : Error) : Tiers × Thread := (t.putFile (u.dest settings) none, .done (.raised e))
  if first ∧ ¬ sniffMatches chunk settings.uploadAllowedTypes then
    turnAway (.invalidRequest "file content does not match an allowed type")
  else if settings.maxUploadBytes < size + chunk.length then
    turnAway (.payloadTooLarge "file too large")
  else if settings.maxUserStorageBytes ≠ 0 ∧
      settings.maxUserStorageBytes < used + (size + chunk.length) then
    turnAway (.payloadTooLarge "storage quota exceeded")
  else (t.writeFile (u.dest settings) size chunk, .reading u used (size + chunk.length) false body)

/-- The row is inserted, where its id is new and its conversation is there. -/
def commitRow (t : Tiers) (u : Upload) (size : Nat) : Tiers × Thread :=
  let row := u.row settings size
  if (∃ r ∈ t.rows, r.id = row.id) ∨ ∀ c ∈ t.conversations, c.id ≠ row.conversationId then
    (t, .done (.raised .integrityError))
  else ({ t with rows := t.rows ++ [row] },
    if settings.maxUserStorageBytes ≠ 0 then .checking row else .done (.stored row))

/-- A failure to remove the blob or the file is suppressed. -/
def removeNext (t : Tiers) (answer : Answer) (row : ConversationFile) (reply : Reply) :
    Removal → Tiers × Thread
  | .blob => (if answer = .ok then t.putBlob row.key none else t, .removing row .file reply)
  | .file => (if answer = .ok then t.putFile row.path none else t, .removing row .row reply)
  | .row => ({ t with rows := t.rows.filter (·.id ≠ row.id) }, .done reply)

def advance (t : Tiers) (answer : Answer) : Thread → Option (Tiers × Thread)
  | .called u =>
      let used := if settings.maxUserStorageBytes ≠ 0 then userStorageUsed t.rows u.user else 0
      some (t, .opening u used)
  | .opening u used =>
      match answer with
      | .fails => some (t, .done (.raised .osError))
      | .ok => some (t.putFile (u.dest settings) (some []), .reading u used 0 true u.body)
  | .reading u used size first body =>
      match answer, body with
      -- the file stays behind
      | .fails, _ => some (t, .done (.raised .osError))
      | .ok, [] => some (t, .persisting u size)
      | .ok, chunk :: body =>
          if chunk = [] then some (t, .persisting u size)
          else some (receiveChunk settings t u used size first chunk body)
  | .persisting u size =>
      match getStorage settings with
      -- outside of the `try`, so that the file stays behind
      | .error e => some (t, .done (.raised e))
      | .ok _ =>
          if answer = .ok ∧ (t.files (u.dest settings)).isSome then some (t, .copying u size .start)
          else some (t.putFile (u.dest settings) none, .done (.raised .osError))
  | .copying u size copy =>
      match answer with
      | .fails => some (t.putFile (u.dest settings) none, .done (.raised .storageError))
      | .ok =>
          let r := copyStep settings.backend t (u.dest settings) u.key copy
          some (r.1, r.2.elim (.committing u size) (.copying u size))
  | .committing u size => some (commitRow settings t u size)
  | .checking row =>
      if settings.maxUserStorageBytes < userStorageUsed t.rows row.userId then
        some (t, .removing row .blob quotaExceeded)
      else some (t, .done (.stored row))
  | .lookingUp conversation fileId =>
      match t.rows.find? fun r => r.id = fileId ∧ r.conversationId = conversation with
      | none => some (t, .done (.raised (.notFound "file not found")))
      | some row => match getStorage settings with
          | .error e => some (t, .done (.raised e))
          | .ok _ => some (t, .removing row .blob .deleted)
  | .removing row left reply => some (removeNext t answer row reply left)
  | .done _ => none

def Refused (used size : Nat) (first : Bool) (chunk : Bytes) : Prop :=
  (first = true ∧ ¬ sniffMatches chunk settings.uploadAllowedTypes = true) ∨
    settings.maxUploadBytes < size + chunk.length ∨
    settings.maxUserStorageBytes ≠ 0 ∧
      settings.maxUserStorageBytes < used + (size + chunk.length)

def Clashes (t : Tiers) (row : ConversationFile) : Prop :=
  (∃ r ∈ t.rows, r.id = row.id) ∨ ∀ c ∈ t.conversations, c.id ≠ row.conversationId

inductive Move (t : Tiers) : Answer → Thread → Tiers → Thread → Prop
  | begins {answer} (u : Upload) : Move t answer (.called u) t
      (.opening u (if settings.maxUserStorageBytes ≠ 0 then userStorageUsed t.rows u.user else 0))
  | opens (u : Upload) (used : Nat) : Move t .ok (.opening u used)
      (t.putFile (u.dest settings) (some [])) (.reading u used 0 true u.body)
  | notOpened (u : Upload) (used : Nat) : Move t .fails (.opening u used) t (.done (.raised .osError))
  | ends {u : Upload} {used size : Nat} {first : Bool} {body : List Bytes} (hend : toCome body = []) :
      Move t .ok (.reading u used size first body) t (.persisting u size)
  | refuses {u : Upload} {used size : Nat} {first : Bool} {chunk : Bytes} {body : List Bytes}
      (e : Error) (hchunk : chunk ≠ []) (why : Refused settings used size first chunk) :
      Move t .ok (.reading u used size first (chunk :: body)) (t.putFile (u.dest settings) none)
        (.done (.raised e))
  | receives {u : Upload} {used size : Nat} {first : Bool} {chunk : Bytes} {body : List Bytes}
      (hchunk : chunk ≠ []) (fits : ¬ Refused settings used size first chunk) :
      Move t .ok (.reading u used size first (chunk :: body))
        (t.writeFile (u.dest settings) size chunk)
        (.reading u used (size + chunk.length) false body)
  | notRead {u : Upload} {used size : Nat} {first : Bool} {body : List Bytes} :
      Move t .fails (.reading u used size first body) t (.done (.raised .osError))
  | noStore {answer} {u : Upload} {size : Nat} {e : Error} (hstore : getStorage settings = .error e) :
      Move t answer (.persisting u size) t (.done (.raised e))
  | persists {u : Upload} {size : Nat} {backend : Backend}
      (hfile : (t.files (u.dest settings)).isSome = true)
      (hstore : getStorage settings = .ok backend) :
      Move t .ok (.persisting u size) t (.copying u size .start)
  | notPersisted {answer} {u : Upload} {size : Nat} {backend : Backend}
      (why : ¬ (answer = .ok ∧ (t.files (u.dest settings)).isSome = true))
      (hstore : getStorage settings = .ok backend) :
      Move t answer (.persisting u size) (t.putFile (u.dest settings) none)
        (.done (.raised .osError))
  | copiesOn {u : Upload} {size : Nat} {copy copy' : Copy}
      (hnext : (copyStep settings.backend t (u.dest settings) u.key copy).2 = some copy') :
      Move t .ok (.copying u size copy)
        (copyStep settings.backend t (u.dest settings) u.key copy).1 (.copying u size copy')
  | copied {u : Upload} {size : Nat} {copy : Copy}
      (hnext : (copyStep settings.backend t (u.dest settings) u.key copy).2 = none) :
      Move t .ok (.copying u size copy)
        (copyStep settings.backend t (u.dest settings) u.key copy).1 (.committing u size)
  | notCopied {u : Upload} {size : Nat} {copy : Copy} : Move t .fails (.copying u size copy)
      (t.putFile (u.dest settings) none) (.done (.raised .storageError))
  | clashes {answer} {u : Upload} {size : Nat} (why : Clashes t (u.row settings size)) :
      Move t answer (.committing u size) t (.done (.raised .integrityError))
  | commits {answer} {u : Upload} {size : Nat} (hnew : ¬ Clashes t (u.row settings size))
      (hquota : settings.maxUserStorageBytes ≠ 0) :
      Move t answer (.committing u size) { t with rows := t.rows ++ [u.row settings size] }
        (.checking (u.row settings size))
  | stores {answer} {u : Upload} {size : Nat} (hnew : ¬ Clashes t (u.row settings size))
      (hquota : ¬ settings.maxUserStorageBytes ≠ 0) :
      Move t answer (.committing u size) { t with rows := t.rows ++ [u.row settings size] }
        (.done (.stored (u.row settings size)))
  | rollsBack {answer} {row : ConversationFile}
      (hover : settings.maxUserStorageBytes < userStorageUsed t.rows row.userId) :
      Move t answer (.checking row) t (.removing row .blob quotaExceeded)
  | passes {answer} {row : ConversationFile}
      (hfits : ¬ settings.maxUserStorageBytes < userStorageUsed t.rows row.userId) :
      Move t answer (.checking row) t (.done (.stored row))
  | misses {answer} {conversation fileId : Str}
      (hnone : (t.rows.find? fun r => r.id = fileId ∧ r.conversationId = conversation) = none) :
      Move t answer (.lookingUp conversation fileId) t
        (.done (.raised (.notFound "file not found")))
  | unreached {answer} {conversation fileId : Str} {e : Error}
      (hstore : getStorage settings = .error e) :
      Move t answer (.lookingUp conversation fileId) t (.done (.raised e))
  | finds {answer} {conversation fileId : Str} {row : ConversationFile} {backend : Backend}
      (hrow : (t.rows.find? fun r => r.id = fileId ∧ r.conversationId = conversation) = some row)
      (hstore : getStorage settings = .ok backend) :
      Move t answer (.lookingUp conversation fileId) t (.removing row .blob .deleted)
  | removesBlob {answer} (row : ConversationFile) (reply : Reply) :
      Move t answer (.removing row .blob reply)
        (if answer = .ok then t.putBlob row.key none else t) (.removing row .file reply)
  | removesFile {answer} (row : ConversationFile) (reply : Reply) :
      Move t answer (.removing row .file reply)
        (if answer = .ok then t.putFile row.path none else t) (.removing row .row reply)
  | removesRow {answer} (row : ConversationFile) (reply : Reply) :
      Move t answer (.removing row .row reply)
        { t with rows := t.rows.filter (·.id ≠ row.id) } (.done reply)

theorem move_of_advance {settings : Settings} {t t' : Tiers} {answer : Answer} {th th' : Thread}
    (h : advance settings t answer th = some (t', th')) : Move settings t answer th t' th' := by
  cases th with
  | called u =>
      cases h
      exact .begins u
  | opening u used =>
      cases answer with
      | ok =>
          cases h
          exact .opens u used
      | fails =>
          cases h
          exact .notOpened u used
  | reading u used size first body =>
      cases answer with
      | fails =>
          cases body <;> cases h <;> exact .notRead
      | ok =>
          cases body with
          | nil =>
              cases h
              exact .ends rfl
          | cons chunk body =>
              simp only [advance] at h
              split at h
              next hend =>
                subst hend
                cases h
                exact .ends rfl
              next hchunk =>
                simp only [receiveChunk] at h
                split_ifs at h with hfirst hfile hquota
                · cases h
                  exact .refuses _ hchunk (.inl hfirst)
                · cases h
                  exact .refuses _ hchunk (.inr (.inl hfile))
                · cases h
                  exact .refuses _ hchunk (.inr (.inr hquota))
                · cases h
                  refine .receives hchunk ?_
                  rw [Refused, not_or, not_or]
                  exact ⟨hfirst, hfile, hquota⟩
  | persisting u size =>
      simp only [advance] at h
      split at h
      next e hstore =>
        cases h
        exact .noStore hstore
      next backend hstore =>
        split at h
        next hfile =>
          obtain ⟨rfl, hfile⟩ := hfile
          cases h
          exact .persists hfile hstore
        next why =>
          cases h
          exact .notPersisted why hstore
  | copying u size copy =>
      cases answer with
      | fails =>
          cases h
          exact .notCopied
      | ok =>
          simp only [advance] at h
          cases hnext : (copyStep settings.backend t (u.dest settings) u.key copy).2 with
          | none =>
              rw [hnext] at h
              cases h
              exact .copied hnext
          | some copy' =>
              rw [hnext] at h
              cases h
              exact .copiesOn hnext
  | committing u size =>
      simp only [advance, commitRow] at h
      split at h
      next why =>
        cases h
        exact .clashes why
      next hnew =>
        split at h
        next hquota =>
          cases h
          exact .commits hnew hquota
        next hquota =>
          cases h
          exact .stores hnew hquota
  | checking row =>
      simp only [advance] at h
      split at h
      next hover =>
        cases h
        exact .rollsBack hover
      next hfits =>
        cases h
        exact .passes hfits
  | lookingUp conversation fileId =>
      simp only [advance] at h
      split at h
      next hnone =>
        cases h
        exact .misses hnone
      next row hrow =>
        split at h
        next e hstore =>
          cases h
          exact .unreached hstore
        next backend hstore =>
          cases h
          exact .finds hrow hstore
  | removing row left reply =>
      cases left with
      | blob =>
          cases h
          exact .removesBlob row reply
      | file =>
          cases h
          exact .removesFile row reply
      | row =>
          cases h
          exact .removesRow row reply
  | done reply => cases h

abbrev System := Pool Tiers Thread

inductive Act
  | storeUpload (u : Upload)
  | deleteUpload (conversation fileId : Str)
  | advance (k : Nat) (answer : Answer)
deriving DecidableEq

def step (s : System) : Act → Option System
  | .storeUpload u => some { s with threads := s.threads ++ [.called u] }
  | .deleteUpload conversation fileId =>
      some { s with threads := s.threads ++ [.lookingUp conversation fileId] }
  | .advance k answer => s.move (advance settings) k answer

def tenBytes : Settings where
  cwd := []
  workspaceRoot := "/srv"
  maxUploadBytes := 10
  maxUserStorageBytes := 10
  uploadAllowedTypes := []
  storageBackend := "s3"
  s3Bucket := "uploads"

def oneConversation : Tiers := ⟨[⟨"cnv_1", "usr_1"⟩], [], fun _ => none, fun _ => none⟩

def sixBytes (hex : Hex8) (fileId : Str) : Upload :=
  ⟨"usr_1", "cnv_1", some "a.txt", [[104, 101, 108, 108, 111, 10]], hex, fileId⟩

def firstSix : Upload := sixBytes ⟨"0a1b2c3d", rfl, by decide⟩ "file_1"

def secondSix : Upload := sixBytes ⟨"4e5f6071", rfl, by decide⟩ "file_2"

end AgentWeb.Uploads
