import AgentWeb.PathResolution
import AgentWeb.Storage
import AgentWeb.Transitions
import Mathlib.Data.List.Lex
import Mathlib.Data.List.Sort
import Mathlib.Data.Nat.Basic

namespace AgentWeb.Artifacts

open PyText UploadChecks PathResolution Storage Transitions
open Uploads (ConversationFile ArtifactInfo Error)

abbrev Name := {name : Str // Plain name}

abbrev Location := List Name

structure Workspace where
  location : Location
  conversation : Name

def Workspace.key (ws : Workspace) (name : Str) : Str := durableKey ws.conversation.val name

/-- The file system of the host, the committed rows and the durable store. -/
structure Host where
  fs : Tree Name Bytes
  rows : List ConversationFile
  blobs : Str → Option Bytes

def maxLinks : Nat := 40

def component (name : Str) : Component Name :=
  if h : Plain name then .down ⟨name, h⟩ else if name = ".." then .up else .stay

variable (ws : Workspace) (host : Host)

/-- `conversation_workspace(conversation.id) / name`, for a name without a slash. -/
def path (name : Str) : List (Component Name) := ws.location.map .down ++ [component name]

def resolved (name : Str) : Resolution Name := resolve host.fs maxLinks [] (path ws name)

def stored : List Str :=
  (host.rows.filter (·.conversationId = ws.conversation.val)).map ConversationFile.storedName

structure Artifact where
  name : Name
  location : Location
  content : Bytes

def artifact (name : Name) : Option Artifact :=
  if (stored ws host).contains name.val then none
  else (fileOf host.fs (resolved ws host name.val)).map fun file => ⟨name, file.1, file.2⟩

def artifacts : List Artifact :=
  ((namesIn host.fs ws.location).insertionSort fun x y => x.val ≤ y.val).filterMap (artifact ws host)

def listArtifacts : List ArtifactInfo :=
  (artifacts ws host).map fun art => ⟨art.name.val, art.content.length⟩

structure Synced where
  blobs : Str → Option Bytes
  names : List Str
  read : List Location

def syncNext (s : Synced) (art : Artifact) : Synced :=
  let key := ws.key art.name.val
  if (s.blobs key).map List.length = some art.content.length then s
  else
    { blobs := Function.update s.blobs key (some art.content)
      names := s.names ++ [art.name.val]
      read := s.read ++ [art.location] }

def syncArtifacts : Synced := (artifacts ws host).foldl (syncNext ws) ⟨host.blobs, [], []⟩

/-- What `artifact_path` comes back with, and the file that is served or written. -/
structure Served where
  host : Host
  file : Option Location
  reply : Except Error (List (Component Name))

def artifactPath (name : Str) : Served :=
  if name = [] ∨ pathName name ≠ name then
    ⟨host, none, .error (.invalidRequest "invalid file name")⟩
  else
    match fileOf host.fs (resolved ws host name) with
    | some file => ⟨host, some file.1, .ok (path ws name)⟩
    | none =>
        if SafeKey (ws.key name) then
          match host.blobs (ws.key name) with
          | none => ⟨host, none, .error (.notFound "artifact not found")⟩
          | some content =>
              match openedAt host.fs (resolved ws host name) with
              | none => ⟨host, none, .error .osError⟩
              | some p => ⟨{ host with fs := writeAt host.fs p content }, some p, .ok (path ws name)⟩
        else ⟨host, none, .error .storageError⟩

inductive Act
  /-- The agent leaves another tree in its workspace. -/
  | agent (below : Tree Name Bytes)
  /-- Uploads, deletions and other instances. -/
  | others (rows : List ConversationFile) (blobs : Str → Option Bytes)
  | listArtifacts
  | syncArtifacts
  | artifactPath (name : Str)

def step (host : Host) : Act → Option Host
  | .agent below => some { host with fs := graft host.fs ws.location below }
  | .others rows blobs => some { host with rows := rows, blobs := blobs }
  | .listArtifacts => some host
  | .syncArtifacts => some { host with blobs := (syncArtifacts ws host).blobs }
  | .artifactPath name => some (artifactPath ws host name).host

def touched : Act → List Location
  | .agent _ => []
  | .others _ _ => []
  | .listArtifacts => (artifacts ws host).map Artifact.location
  | .syncArtifacts => (artifacts ws host).map Artifact.location ++ (syncArtifacts ws host).read
  | .artifactPath name => (artifactPath ws host name).file.toList

def StaysInside (act : Act) : Prop := ∀ p ∈ touched ws host act, ws.location <+: p

def isLink (name : Str) : Bool :=
  match component name with
  | .down x =>
      match entryAt host.fs (ws.location ++ [x]) with
      | some (.link _ _) => true
      | _ => false
  | .up => false
  | .stay => false

/-- No link that the call meets leads it out of the workspace. -/
def Contained : Act → Prop
  | .agent _ => True
  | .others _ _ => True
  | .listArtifacts | .syncArtifacts =>
      ∀ name ∈ namesIn host.fs ws.location, name.val ∉ stored ws host → isLink ws host name.val →
        ∀ file ∈ fileOf host.fs (resolved ws host name.val), ws.location <+: file.1
  | .artifactPath name =>
      isLink ws host name →
        (∀ file ∈ fileOf host.fs (resolved ws host name), ws.location <+: file.1) ∧
        ((host.blobs (ws.key name)).isSome →
          ∀ p ∈ openedAt host.fs (resolved ws host name), ws.location <+: p)

instance : (act : Act) → Decidable (Contained ws host act)
  | .agent _ => .isTrue trivial
  | .others _ _ => .isTrue trivial
  | .listArtifacts => inferInstanceAs (Decidable (∀ name ∈ _, _))
  | .syncArtifacts => inferInstanceAs (Decidable (∀ name ∈ _, _))
  | .artifactPath _ => inferInstanceAs (Decidable (_ → _))

end AgentWeb.Artifacts
