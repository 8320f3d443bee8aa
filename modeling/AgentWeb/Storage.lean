import AgentWeb.DirectoryTree
import AgentWeb.Uploads

namespace AgentWeb.Storage

open PyText UploadChecks Uploads DirectoryTree

/-- `Path(key).parts`, of a key that is relative. -/
def parts (key : Str) : List Str :=
  (key.splitOn 47).filter fun part => part ≠ [] ∧ part ≠ str "."

/-- `_safe_key` lets the key through. -/
def SafeKey (key : Str) : Prop := key ≠ [] ∧ key.head? ≠ some 47 ∧ str ".." ∉ parts key

instance (key : Str) : Decidable (SafeKey key) := inferInstanceAs (Decidable (_ ∧ _))

def Plain (name : Str) : Prop := name ≠ [] ∧ 47 ∉ name ∧ name ≠ str "." ∧ name ≠ str ".."

instance (name : Str) : Decidable (Plain name) := inferInstanceAs (Decidable (_ ∧ _))

theorem parts_durableKey {conversation name : Str} (hc : Plain conversation) (hn : Plain name) :
    parts (durableKey conversation name) = [conversation, name] := by
  have hkey : durableKey conversation name = conversation ++ 47 :: name := by
    simp [durableKey, str]
  rw [parts, hkey, List.splitOn_append_cons_self_of_not_mem hc.2.1, List.splitOn_eq_singleton hn.2.1]
  simp [hc.1, hc.2.2.1, hn.1, hn.2.2.1]

def durableKeys : Set Str :=
  {key | ∃ conversation name, Plain conversation ∧ Plain name ∧ durableKey conversation name = key}

theorem safeKey_durableKeys : ∀ key ∈ durableKeys, SafeKey key := by
  rintro _ ⟨conversation, name, hc, hn, rfl⟩
  refine ⟨?_, ?_, ?_⟩
  · simp [durableKey, hc.1]
  · obtain ⟨c, cs, rfl⟩ := List.exists_cons_of_ne_nil hc.1
    have hslash : 47 ≠ c := fun heq => hc.2.1 (heq ▸ List.mem_cons_self)
    simpa [durableKey] using hslash.symm
  · rw [parts_durableKey hc hn]
    simp [hc.2.2.2.symm, hn.2.2.2.symm]

/-- A stream: the chunks that its reads give, and whether a read behind them raises. -/
structure Source where
  chunks : List Bytes
  raises : Bool
deriving DecidableEq

/-- What is read of a stream. A chunk that is empty is its end. -/
def Source.data (source : Source) : Bytes := toCome source.chunks

/-- A read raises before the stream has come to its end. -/
def Source.stops (source : Source) : Bool := source.raises && source.chunks.all (· ≠ [])

inductive Value
  | nothing
  | written (n : Nat)
  | bytes (data : Bytes)
  | chunks (chunks : List Bytes)
  | found (there : Bool)
  | length (n : Option Nat)
deriving DecidableEq

inductive Raised
  | storageError
  | osError
  /-- What a read of the source raises. -/
  | ofSource
deriving DecidableEq

abbrev Reply := Except Raised Value

inductive Call
  | putBytes (key : Str) (data : Bytes)
  | putStream (key : Str) (source : Source)
  | getBytes (key : Str)
  /-- The iterator is read to its end at once. -/
  | openStream (key : Str)
  | existsKey (key : Str)
  | size (key : Str)
  | delete (key : Str)
deriving DecidableEq

def Call.key : Call → Str
  | .putBytes key _ | .putStream key _ | .getBytes key | .openStream key | .existsKey key
  | .size key | .delete key => key

/-- What `_CHUNK` reads at a time give. -/
def reads (data : Bytes) : List Bytes := data.toChunks chunkSize

namespace LocalStorage

abbrev Root := Option (Node Str Bytes)

variable (root : Root)

def putBytes (key : Str) (data : Bytes) : Root × Reply :=
  if SafeKey key then
    match write (parts key) data root with
    | .error _ => (root, .error .osError)
    | .ok n => (some n, .ok .nothing)
  else (root, .error .storageError)

/-- What has been read stays in the file if the source raises. -/
def putStream (key : Str) (source : Source) : Root × Reply :=
  if SafeKey key then
    match write (parts key) source.data root with
    | .error _ => (root, .error .osError)
    | .ok n =>
        (some n, if source.stops then .error .ofSource else .ok (.written source.data.length))
  else (root, .error .storageError)

def getBytes (key : Str) : Reply :=
  if SafeKey key then
    match fileAt (parts key) root with
    | none => .error .storageError
    | some data => .ok (.bytes data)
  else .error .storageError

def openStream (key : Str) : Reply :=
  if SafeKey key then
    match fileAt (parts key) root with
    | none => .error .storageError
    | some data => .ok (.chunks (reads data))
  else .error .storageError

def existsKey (key : Str) : Reply :=
  if SafeKey key then .ok (.found (fileAt (parts key) root).isSome) else .error .storageError

def size (key : Str) : Reply :=
  if SafeKey key then .ok (.length ((fileAt (parts key) root).map List.length))
  else .error .storageError

def delete (key : Str) : Root × Reply :=
  if SafeKey key then
    match unlink (parts key) root with
    | .error _ => (root, .error .osError)
    | .ok n => (n, .ok .nothing)
  else (root, .error .storageError)

def call : Call → Root × Reply
  | .putBytes key data => putBytes root key data
  | .putStream key source => putStream root key source
  | .getBytes key => (root, getBytes root key)
  | .openStream key => (root, openStream root key)
  | .existsKey key => (root, existsKey root key)
  | .size key => (root, size root key)
  | .delete key => delete root key

end LocalStorage

namespace S3Storage

abbrev Bucket := Str → Option Bytes

/-- `self._prefix`. -/
def storePrefix (s : Str) : Str :=
  let stripped := (s.dropWhile (· == 47)).rdropWhile (· == 47)
  if stripped = [] then [] else stripped ++ "/"

variable (s : Str) (bucket : Bucket)

/-- `_obj`, where the key is safe. -/
def obj (key : Str) : Str := storePrefix s ++ key

def putBytes (key : Str) (data : Bytes) : Bucket × Reply :=
  if SafeKey key then (Function.update bucket (obj s key) (some data), .ok .nothing)
  else (bucket, .error .storageError)

/-- The stream is read before anything else. -/
def putStream (key : Str) (source : Source) : Bucket × Reply :=
  if source.stops then (bucket, .error .ofSource)
  else
    match putBytes s bucket key source.data with
    | (bucket, .error e) => (bucket, .error e)
    | (bucket, .ok _) => (bucket, .ok (.written source.data.length))

def getBytes (key : Str) : Reply :=
  if SafeKey key then
    match bucket (obj s key) with
    | none => .error .storageError
    | some data => .ok (.bytes data)
  else .error .storageError

def openStream (key : Str) : Reply :=
  if SafeKey key then
    match bucket (obj s key) with
    | none => .error .storageError
    | some data => .ok (.chunks (reads data))
  else .error .storageError

def existsKey (key : Str) : Reply :=
  if SafeKey key then .ok (.found (bucket (obj s key)).isSome) else .error .storageError

def size (key : Str) : Reply :=
  if SafeKey key then .ok (.length ((bucket (obj s key)).map List.length))
  else .error .storageError

def delete (key : Str) : Bucket × Reply :=
  if SafeKey key then (Function.update bucket (obj s key) none, .ok .nothing)
  else (bucket, .error .storageError)

def call : Call → Bucket × Reply
  | .putBytes key data => putBytes s bucket key data
  | .putStream key source => putStream s bucket key source
  | .getBytes key => (bucket, getBytes s bucket key)
  | .openStream key => (bucket, openStream s bucket key)
  | .existsKey key => (bucket, existsKey s bucket key)
  | .size key => (bucket, size s bucket key)
  | .delete key => delete s bucket key

theorem obj_inj {key key' : Str} : obj s key = obj s key' ↔ key = key' :=
  List.append_cancel_left_eq (storePrefix s) key key' ▸ Iff.rfl

end S3Storage

end AgentWeb.Storage
