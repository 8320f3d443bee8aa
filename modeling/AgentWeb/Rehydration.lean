import AgentWeb.Storage
import AgentWeb.Transitions

namespace AgentWeb.Rehydration

open PyText UploadChecks Uploads Storage Transitions

variable (settings : Settings) (conversation : Str)

def pathOf (name : Str) : Path := (conversationWorkspace settings conversation, name)

/-- `artifact_path`. The stream of the object raises behind so many chunks, if at all,
and what has been read by then stays in the file. -/
def artifactPath (t : Tiers) (name : Str) (stop : Option Nat) : Tiers × Except Error Path :=
  if name = [] ∨ pathName name ≠ name then (t, .error (.invalidRequest "invalid file name"))
  else if (t.files (pathOf settings conversation name)).isSome then
    (t, .ok (pathOf settings conversation name))
  else
    match getStorage settings with
    | .error e => (t, .error e)
    | .ok _ =>
        if SafeKey (durableKey conversation name) then
          match t.blobs (durableKey conversation name) with
          | none => (t, .error (.notFound "artifact not found"))
          | some content =>
              match stop with
              | none =>
                  (t.putFile (pathOf settings conversation name) (some content),
                    .ok (pathOf settings conversation name))
              | some n =>
                  (t.putFile (pathOf settings conversation name)
                    (some ((reads content).take n).flatten), .error .storageError)
        else (t, .error .storageError)

/-- One round of the loop of `sync_artifacts`, for an entry of the workspace. -/
def syncNext (t : Tiers) (name : Str) : Tiers :=
  match t.files (pathOf settings conversation name) with
  | none => t
  | some content =>
      let rows := t.rows.filter (·.conversationId = conversation)
      if (rows.map ConversationFile.storedName).contains name then t
      else if (t.blobs (durableKey conversation name)).map List.length = some content.length then t
      else t.putBlob (durableKey conversation name) (some content)

def syncArtifacts (t : Tiers) (names : List Str) : Tiers :=
  match getStorage settings with
  | .error _ => t
  | .ok _ => names.foldl (syncNext settings conversation) t

inductive Act
  | artifactPath (name : Str) (stop : Option Nat)
  /-- The names that `iterdir` gives. -/
  | syncArtifacts (names : List Str)
deriving DecidableEq

def step (t : Tiers) : Act → Option Tiers
  | .artifactPath name stop => some (artifactPath settings conversation t name stop).1
  | .syncArtifacts names => some (syncArtifacts settings conversation t names)

/-- What a call must not do to the workspace and to the object of a name: a call that
raises makes no file, the object stays, and no proper prefix of it is served. -/
def Harmless (name : Str) (content : Bytes) (t : Tiers) : Act → Prop
  | .artifactPath called stop =>
      let r := artifactPath settings conversation t called stop
      (∀ e, r.2 = .error e → ∀ p, t.files p = none → r.1.files p = none) ∧
        r.1.blobs (durableKey conversation name) = some content ∧
        (called = name → ∀ path, r.2 = .ok path → ∀ data, r.1.files path = some data →
          ¬ (data <+: content ∧ data ≠ content))
  | .syncArtifacts names =>
      (syncArtifacts settings conversation t names).blobs (durableKey conversation name) = some content

def Rehydrates (t : Tiers) (name : Str) : Prop :=
  ¬ (name = [] ∨ pathName name ≠ name) ∧ t.files (pathOf settings conversation name) = none ∧
    HasStore settings ∧ SafeKey (durableKey conversation name) ∧ (t.blobs (durableKey conversation name)).isSome

instance (t : Tiers) (name : Str) : Decidable (Rehydrates settings conversation t name) :=
  inferInstanceAs (Decidable (_ ∧ _))

/-- The stream of an object that is pulled back is read to its end. -/
def Completes (t : Tiers) : Act → Prop
  | .artifactPath name stop => Rehydrates settings conversation t name → stop = none
  | .syncArtifacts _ => True

instance (t : Tiers) : (act : Act) → Decidable (Completes settings conversation t act)
  | .artifactPath _ _ => inferInstanceAs (Decidable (_ → _))
  | .syncArtifacts _ => .isTrue trivial

variable {settings conversation} {t : Tiers} {name : Str} {content : Bytes}

theorem putFile_self (t : Tiers) (path : Path) (data : Option Bytes) :
    (t.putFile path data).files path = data :=
  Function.update_self ..

theorem putFile_of_ne {path p : Path} (hp : p ≠ path) (t : Tiers) (data : Option Bytes) :
    (t.putFile path data).files p = t.files p :=
  Function.update_of_ne hp ..

theorem artifactPath_still (h : ¬ Rehydrates settings conversation t name) (stop : Option Nat) :
    (artifactPath settings conversation t name stop).1 = t := by
  rw [artifactPath]
  split
  · rfl
  next hname =>
    split
    · rfl
    next hfile =>
      split
      · rfl
      next backend hstore =>
        split
        next hsafe =>
          split
          · rfl
          next content hblob =>
            have hnone : t.files (pathOf settings conversation name) = none := by simpa using hfile
            exact absurd ⟨hname, hnone, ⟨backend, hstore⟩, hsafe, by rw [hblob]; rfl⟩ h
        · rfl

theorem artifactPath_completes (h : Rehydrates settings conversation t name)
    (hblob : t.blobs (durableKey conversation name) = some content) :
    artifactPath settings conversation t name none =
      (t.putFile (pathOf settings conversation name) (some content),
        .ok (pathOf settings conversation name)) := by
  obtain ⟨hname, hnone, ⟨backend, hstore⟩, hsafe, -⟩ := h
  have hfile : (t.files (pathOf settings conversation name)).isSome = false := by rw [hnone]; rfl
  rw [artifactPath, if_neg hname, hfile, if_neg Bool.false_ne_true, hstore]
  simp only [if_pos hsafe, hblob]

theorem artifactPath_breaks (h : Rehydrates settings conversation t name) (n : Nat)
    (hblob : t.blobs (durableKey conversation name) = some content) :
    artifactPath settings conversation t name (some n) =
      (t.putFile (pathOf settings conversation name) (some ((reads content).take n).flatten),
        .error .storageError) := by
  obtain ⟨hname, hnone, ⟨backend, hstore⟩, hsafe, -⟩ := h
  have hfile : (t.files (pathOf settings conversation name)).isSome = false := by rw [hnone]; rfl
  rw [artifactPath, if_neg hname, hfile, if_neg Bool.false_ne_true, hstore]
  simp only [if_pos hsafe, hblob]

/-- The object is the one that it was, and the file of its name holds the same, if there
is one. -/
structure Kept (settings : Settings) (conversation name : Str) (content : Bytes) (t : Tiers) :
    Prop where
  object : t.blobs (durableKey conversation name) = some content
  file : ∀ data, t.files (pathOf settings conversation name) = some data → data = content

theorem durableKey_ne {called : Str} (h : called ≠ name) :
    durableKey conversation name ≠ durableKey conversation called := by
  rw [durableKey, durableKey, Ne, List.append_cancel_left_eq]
  exact h.symm

theorem Kept.syncNext (h : Kept settings conversation name content t) (called : Str) :
    Kept settings conversation name content (syncNext settings conversation t called) := by
  rw [Rehydration.syncNext]
  cases hfile : t.files (pathOf settings conversation called) with
  | none => exact h
  | some data =>
      dsimp only
      split
      · exact h
      · split
        next => exact h
        next hsize =>
          refine ⟨?_, h.file⟩
          by_cases hname : called = name
          · subst hname
            rw [h.object, h.file data hfile] at hsize
            exact absurd rfl hsize
          · exact (Function.update_of_ne (durableKey_ne hname) _ _).trans h.object

theorem Kept.syncAll (h : Kept settings conversation name content t) (names : List Str) :
    Kept settings conversation name content
      (names.foldl (Rehydration.syncNext settings conversation) t) := by
  induction names generalizing t with
  | nil => exact h
  | cons called names ih => exact ih (h.syncNext called)

theorem Kept.syncArtifacts (h : Kept settings conversation name content t) (names : List Str) :
    Kept settings conversation name content (syncArtifacts settings conversation t names) := by
  rw [Rehydration.syncArtifacts]
  split
  · exact h
  · exact h.syncAll names

theorem Kept.artifactPath (h : Kept settings conversation name content t) (called : Str)
    {stop : Option Nat} (hstop : Rehydrates settings conversation t called → stop = none) :
    Kept settings conversation name content (artifactPath settings conversation t called stop).1 := by
  by_cases hre : Rehydrates settings conversation t called
  · obtain ⟨content', hblob⟩ := Option.isSome_iff_exists.mp hre.2.2.2.2
    rw [hstop hre, artifactPath_completes hre hblob]
    refine ⟨h.object, fun data hdata => ?_⟩
    by_cases hname : called = name
    · subst hname
      cases h.object.symm.trans hblob
      rw [putFile_self] at hdata
      exact (Option.some.inj hdata).symm
    · have hne : pathOf settings conversation name ≠ pathOf settings conversation called :=
        fun heq => hname (Prod.mk.inj heq).2.symm
      rw [putFile_of_ne hne] at hdata
      exact h.file data hdata
  · rw [artifactPath_still hre]
    exact h

theorem Kept.step {t' : Tiers} {act : Act} (h : Kept settings conversation name content t)
    (hgood : Completes settings conversation t act)
    (hstep : step settings conversation t act = some t') :
    Kept settings conversation name content t' := by
  cases act with
  | artifactPath called stop =>
      cases hstep
      exact h.artifactPath called hgood
  | syncArtifacts names =>
      cases hstep
      exact h.syncArtifacts names

theorem artifactPath_ok {stop : Option Nat} {path : Path}
    (h : (artifactPath settings conversation t name stop).2 = .ok path) :
    path = pathOf settings conversation name := by
  rw [artifactPath] at h
  split at h
  · cases h
  · split at h
    · cases h
      rfl
    · split at h
      · cases h
      · split at h
        · split at h
          · cases h
          · split at h <;> cases h
            rfl
        · cases h

theorem harmless_iff (h : Kept settings conversation name content t) (act : Act) :
    Harmless settings conversation name content t act ↔ Completes settings conversation t act := by
  cases act with
  | syncArtifacts names => exact iff_of_true (h.syncArtifacts names).object trivial
  | artifactPath called stop =>
      constructor
      · intro hharm hre
        cases stop with
        | none => rfl
        | some n =>
            obtain ⟨content', hblob⟩ := Option.isSome_iff_exists.mp hre.2.2.2.2
            have hbreak := artifactPath_breaks hre n hblob
            have hnew := hharm.1 .storageError (by rw [hbreak]) _ hre.2.1
            rw [hbreak, putFile_self] at hnew
            cases hnew
      · intro hgood
        have hkept := h.artifactPath called hgood
        refine ⟨fun e he p hp => ?_, hkept.object, fun hcalled path hpath data hdata => ?_⟩
        · by_cases hre : Rehydrates settings conversation t called
          · obtain ⟨content', hblob⟩ := Option.isSome_iff_exists.mp hre.2.2.2.2
            rw [hgood hre, artifactPath_completes hre hblob] at he
            cases he
          · rw [artifactPath_still hre]
            exact hp
        · subst hcalled
          rw [artifactPath_ok hpath] at hdata
          exact fun hpre => hpre.2 (hkept.file data hdata)

/-- A rehydration that raises leaves what it has read. No call does harm if and only if
each stream that is opened is read to its end. -/
theorem rehydration_harmless_iff (settings : Settings) (conversation name : Str) (content : Bytes)
    (t : Tiers) (acts : List Act)
    (hobject : t.blobs (durableKey conversation name) = some content)
    (habsent : t.files (pathOf settings conversation name) = none) :
    EachStep (step settings conversation) (Harmless settings conversation name content) t acts ↔
      EachStep (step settings conversation) (Completes settings conversation) t acts :=
  eachStep_congr_of_good (J := Kept settings conversation name content)
    (fun _ _ _ h hgood hstep => h.step hgood hstep) (fun _ act h => harmless_iff h act)
    ⟨hobject, fun data hdata => by rw [habsent] at hdata; cases hdata⟩

def bucketSettings : Settings := ⟨[], "/srv/ws", 1000, 0, [], "s3", "uploads"⟩

def lostWorkspace : Tiers where
  conversations := []
  rows := []
  files := fun _ => none
  blobs := fun key => if key = durableKey "cnv_1" "report.csv" then some [97, 44, 98] else none

theorem rehydration_harmless_once :
    EachStep (step bucketSettings "cnv_1")
      (Harmless bucketSettings "cnv_1" "report.csv" [97, 44, 98]) lostWorkspace
      [.artifactPath "report.csv" none, .syncArtifacts ["report.csv"],
        .artifactPath "report.csv" (some 0)] :=
  (rehydration_harmless_iff bucketSettings "cnv_1" "report.csv" [97, 44, 98] lostWorkspace _ rfl
    rfl).mpr (by decide)

def brokenStream : List Act := [.artifactPath "report.csv" (some 0), .syncArtifacts ["report.csv"]]

/-- The object is lost. -/
theorem brokenStream_harms :
    (run (step bucketSettings "cnv_1") lostWorkspace brokenStream).map
        (fun t => t.blobs (durableKey "cnv_1" "report.csv")) = some (some []) ∧
      ¬ EachStep (step bucketSettings "cnv_1")
        (Harmless bucketSettings "cnv_1" "report.csv" [97, 44, 98]) lostWorkspace brokenStream := by
  refine ⟨by decide, fun h => ?_⟩
  have hobject : (syncArtifacts bucketSettings "cnv_1"
      (artifactPath bucketSettings "cnv_1" lostWorkspace "report.csv" (some 0)).1
      ["report.csv"]).blobs (durableKey "cnv_1" "report.csv") = some [97, 44, 98] := (h.2 _ rfl).1
  exact absurd hobject (by decide)

end AgentWeb.Rehydration
