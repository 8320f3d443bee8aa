import AgentWeb.Artifacts

namespace AgentWeb.BestEffort

open PyText UploadChecks Uploads Artifacts PathResolution

/-- What an operation of the store raises: the `ClientError` of the bucket's client,
or anything else. -/
inductive Fault
  | clientError
  | other
deriving DecidableEq

/-- How the store treats one artifact: what `size` raises, if anything, and what a
copy that raises leaves of the object. -/
structure Treatment where
  size : Option Fault
  put : Option (Option Bytes)
deriving DecidableEq

/-- `size` of either backend. `S3Storage` takes a `ClientError` for an absent object,
and nothing else is translated. -/
def sizeReply (backend : Backend) (blob : Option Bytes) : Option Fault → Except Fault (Option Nat)
  | none => .ok (blob.map List.length)
  | some .clientError =>
      match backend with
      | .s3 => .ok none
      | .localDisk => .error .clientError
  | some .other => .error .other

variable (ws : Workspace) (host : Host) (backend : Backend) (treats : Str → Treatment)

/-- Opening the file and `put_stream`, with whatever they raise caught. -/
def copy (s : Synced) (art : Artifact) : Option (Option Bytes) → Synced
  | none =>
      { blobs := Function.update s.blobs (ws.key art.name.val) (some art.content)
        names := s.names ++ [art.name.val]
        read := s.read ++ [art.location] }
  | some left =>
      { s with
        blobs := Function.update s.blobs (ws.key art.name.val) left
        read := s.read ++ [art.location] }

/-- The loop of `sync_artifacts`. The call of `size` stands before the `try`. -/
def sweep : List Artifact → Synced → Synced × Option Fault
  | [], s => (s, none)
  | art :: arts, s =>
      match sizeReply backend (s.blobs (ws.key art.name.val)) (treats art.name.val).size with
      | .error fault => (s, some fault)
      | .ok size =>
          if size = some art.content.length then sweep arts s
          else sweep arts (copy ws s art (treats art.name.val).put)

def syncArtifacts : Synced × Option Fault :=
  sweep ws backend treats (artifacts ws host) ⟨host.blobs, [], []⟩

def Uploaded (blobs : Str → Option Bytes) (art : Artifact) : Prop :=
  sizeReply backend (blobs (ws.key art.name.val)) (treats art.name.val).size ≠
    .ok (some art.content.length) ∧ (treats art.name.val).put = none

instance decidableUploaded (blobs : Str → Option Bytes) (art : Artifact) :
    Decidable (Uploaded ws backend treats blobs art) :=
  inferInstanceAs (Decidable (_ ∧ _))

/-- The call returns, each artifact that no operation fails for is durable with its
size, and the names are those of the uploaded ones. -/
structure Thorough : Prop where
  returns : (syncArtifacts ws host backend treats).2 = none
  durable : ∀ art ∈ artifacts ws host, treats art.name.val = ⟨none, none⟩ →
    ((syncArtifacts ws host backend treats).1.blobs (ws.key art.name.val)).map List.length =
      some art.content.length
  listed : (syncArtifacts ws host backend treats).1.names =
    ((artifacts ws host).filter (Uploaded ws backend treats host.blobs ·)).map (·.name.val)

/-- `size` raises for the artifact, and the backend does not turn it into an answer. -/
def SizeRaises (art : Artifact) : Prop :=
  ∃ fault, (treats art.name.val).size = some fault ∧ ¬ (backend = .s3 ∧ fault = .clientError)

theorem map_name_sublist (names : List Name) :
    ((names.filterMap (artifact ws host)).map Artifact.name).Sublist names := by
  induction names with
  | nil => exact .refl _
  | cons name names ih =>
      cases hart : artifact ws host name with
      | none =>
          rw [List.filterMap_cons_none hart]
          exact ih.cons name
      | some art =>
          have hname : art.name = name := by
            simp only [artifact] at hart
            split at hart
            · cases hart
            · obtain ⟨file, -, rfl⟩ := Option.map_eq_some_iff.mp hart
              rfl
          rw [List.filterMap_cons_some hart, List.map_cons, hname]
          exact ih.cons_cons name

theorem nodup_names : ((artifacts ws host).map Artifact.name).Nodup := by
  refine (map_name_sublist ws host _).nodup ?_
  exact (List.perm_insertionSort _ _).nodup_iff.mpr (List.nodup_dedup _)

theorem key_inj {name name' : Name} : ws.key name.val = ws.key name'.val ↔ name = name' := by
  rw [Workspace.key, Workspace.key, durableKey, durableKey, List.append_cancel_left_eq]
  exact Subtype.val_inj

variable {ws host backend treats}

theorem sizeReply_error_iff {blob : Option Bytes} {size : Option Fault} :
    (∃ fault, sizeReply backend blob size = .error fault) ↔
      ∃ fault, size = some fault ∧ ¬ (backend = .s3 ∧ fault = .clientError) := by
  rcases size with _ | _ | _ <;> cases backend <;> simp [sizeReply]

theorem sweep_raises {arts : List Artifact} (h : ∃ art ∈ arts, SizeRaises backend treats art)
    (s : Synced) : (sweep ws backend treats arts s).2 ≠ none := by
  induction arts generalizing s with
  | nil => simp at h
  | cons art arts ih =>
      rw [sweep]
      cases hsize : sizeReply backend (s.blobs (ws.key art.name.val)) (treats art.name.val).size with
      | error fault => exact Option.some_ne_none fault
      | ok size =>
          have hlater : ∃ art ∈ arts, SizeRaises backend treats art := by
            obtain ⟨art', hmem, hraises⟩ := h
            rcases List.mem_cons.mp hmem with rfl | hmem
            · obtain ⟨fault, herror⟩ := sizeReply_error_iff.mpr hraises
              cases hsize.symm.trans herror
            · exact ⟨art', hmem, hraises⟩
          dsimp only
          split <;> exact ih hlater _

/-- What the loop has after one artifact whose `size` does not raise. -/
def next (ws : Workspace) (backend : Backend) (treats : Str → Treatment) (s : Synced)
    (art : Artifact) : Synced :=
  if sizeReply backend (s.blobs (ws.key art.name.val)) (treats art.name.val).size =
    .ok (some art.content.length) then s
  else copy ws s art (treats art.name.val).put

theorem sweep_cons {art : Artifact} (h : ¬ SizeRaises backend treats art) (arts : List Artifact)
    (s : Synced) : sweep ws backend treats (art :: arts) s =
      sweep ws backend treats arts (next ws backend treats s art) := by
  rw [sweep, next]
  cases hsize : sizeReply backend (s.blobs (ws.key art.name.val)) (treats art.name.val).size with
  | error fault => exact absurd (sizeReply_error_iff.mp ⟨fault, hsize⟩) h
  | ok size =>
      dsimp only
      by_cases hsame : size = some art.content.length
      · rw [if_pos hsame, if_pos (by rw [hsame])]
      · rw [if_neg hsame, if_neg fun heq => hsame (by cases heq; rfl)]

theorem next_blobs_of_ne {art : Artifact} {key : Str} (hkey : key ≠ ws.key art.name.val)
    (s : Synced) : (next ws backend treats s art).blobs key = s.blobs key := by
  rw [next]
  split
  · rfl
  · cases (treats art.name.val).put <;> exact Function.update_of_ne hkey _ _

theorem next_durable {art : Artifact} (h : treats art.name.val = ⟨none, none⟩) (s : Synced) :
    ((next ws backend treats s art).blobs (ws.key art.name.val)).map List.length =
      some art.content.length := by
  rw [next, h]
  split
  next hsize => simpa [sizeReply] using hsize
  next => simp [copy]

theorem next_names (s : Synced) (art : Artifact) : (next ws backend treats s art).names = s.names ++
    if Uploaded ws backend treats s.blobs art then [art.name.val] else [] := by
  rw [next]
  by_cases hsize : sizeReply backend (s.blobs (ws.key art.name.val)) (treats art.name.val).size =
      .ok (some art.content.length)
  · simp [hsize, Uploaded]
  · cases hput : (treats art.name.val).put <;> simp [hsize, hput, Uploaded, copy]

section Quiet

variable {arts : List Artifact}

theorem sweep_returns (hok : ∀ art ∈ arts, ¬ SizeRaises backend treats art) (s : Synced) :
    (sweep ws backend treats arts s).2 = none := by
  induction arts generalizing s with
  | nil => rfl
  | cons art arts ih =>
      rw [List.forall_mem_cons] at hok
      rw [sweep_cons hok.1]
      exact ih hok.2 _

theorem sweep_blobs_of_ne (hok : ∀ art ∈ arts, ¬ SizeRaises backend treats art) {key : Str}
    (hkey : ∀ art ∈ arts, key ≠ ws.key art.name.val) (s : Synced) :
    (sweep ws backend treats arts s).1.blobs key = s.blobs key := by
  induction arts generalizing s with
  | nil => rfl
  | cons art arts ih =>
      rw [List.forall_mem_cons] at hok hkey
      rw [sweep_cons hok.1, ih hok.2 hkey.2, next_blobs_of_ne hkey.1]

theorem sweep_durable (hok : ∀ art ∈ arts, ¬ SizeRaises backend treats art)
    (hnodup : (arts.map Artifact.name).Nodup) (s : Synced) :
    ∀ art ∈ arts, treats art.name.val = ⟨none, none⟩ →
      ((sweep ws backend treats arts s).1.blobs (ws.key art.name.val)).map List.length =
        some art.content.length := by
  induction arts generalizing s with
  | nil => simp
  | cons art arts ih =>
      rw [List.forall_mem_cons] at hok
      rw [List.map_cons, List.nodup_cons] at hnodup
      rw [sweep_cons hok.1]
      intro art' hmem hsound
      rcases List.mem_cons.mp hmem with rfl | hmem
      · have hapart : ∀ other ∈ arts, ws.key art'.name.val ≠ ws.key other.name.val :=
          fun other hother heq => hnodup.1 ((key_inj ws).mp heq ▸ List.mem_map_of_mem hother)
        rw [sweep_blobs_of_ne hok.2 hapart]
        exact next_durable hsound s
      · exact ih hok.2 hnodup.2 _ art' hmem hsound

theorem sweep_names (hok : ∀ art ∈ arts, ¬ SizeRaises backend treats art)
    (hnodup : (arts.map Artifact.name).Nodup) (s : Synced) :
    (sweep ws backend treats arts s).1.names =
      s.names ++ (arts.filter (Uploaded ws backend treats s.blobs ·)).map (·.name.val) := by
  induction arts generalizing s with
  | nil => simp [sweep]
  | cons art arts ih =>
      rw [List.forall_mem_cons] at hok
      rw [List.map_cons, List.nodup_cons] at hnodup
      have hsame : arts.filter (Uploaded ws backend treats (next ws backend treats s art).blobs ·) =
          arts.filter (Uploaded ws backend treats s.blobs ·) := by
        refine List.filter_congr fun other hother => ?_
        have hne : ws.key other.name.val ≠ ws.key art.name.val :=
          fun heq => hnodup.1 ((key_inj ws).mp heq ▸ List.mem_map_of_mem hother)
        refine decide_eq_decide.mpr ?_
        rw [Uploaded, Uploaded, next_blobs_of_ne hne]
      rw [sweep_cons hok.1, ih hok.2 hnodup.2, hsame, next_names, List.append_assoc, List.filter_cons]
      split <;> simp_all

end Quiet

/-- One failure does not abort the rest, unless it is `size` that raises. -/
theorem thorough_iff (ws : Workspace) (host : Host) (backend : Backend) (treats : Str → Treatment) :
    Thorough ws host backend treats ↔
      ∀ art ∈ artifacts ws host, ∀ fault, (treats art.name.val).size = some fault →
        backend = .s3 ∧ fault = .clientError := by
  constructor
  · intro h art hart fault hfault
    by_contra hbad
    exact sweep_raises ⟨art, hart, fault, hfault, hbad⟩ _ h.returns
  · intro h
    have hok : ∀ art ∈ artifacts ws host, ¬ SizeRaises backend treats art := by
      rintro art hart ⟨fault, hfault, hbad⟩
      exact hbad (h art hart fault hfault)
    have hnodup := nodup_names ws host
    refine ⟨sweep_returns hok _, sweep_durable hok hnodup _, ?_⟩
    rw [syncArtifacts, sweep_names hok hnodup, List.nil_append]

def conversation : Name := ⟨"cnv_3", by decide⟩

def chart : Name := ⟨"chart.png", by decide⟩

def table : Name := ⟨"table.csv", by decide⟩

def twoArtifacts : Host where
  fs := [([], .directory), ([conversation], .directory), ([conversation, chart], .file [137, 80]),
    ([conversation, table], .file [97, 44, 98])]
  rows := []
  blobs := fun _ => none

/-- The bucket cannot be reached when the first of two artifacts is looked up, and the
second one is not tried. -/
theorem sync_aborted : ¬ Thorough ⟨[conversation], conversation⟩ twoArtifacts .s3
    (fun name => if name = chart.val then ⟨some .other, none⟩ else ⟨none, none⟩) := by
  intro h
  have hmem : ⟨table, [conversation, table], [97, 44, 98]⟩ ∈
      artifacts ⟨[conversation], conversation⟩ twoArtifacts := List.mem_of_getElem? (i := 1) rfl
  exact absurd (h.durable _ hmem (by decide)) (by decide)

/-- Where nothing fails, this is the sync of a store that always answers. -/
theorem syncArtifacts_of_quiet (ws : Workspace) (host : Host) (backend : Backend) :
    syncArtifacts ws host backend (fun _ => ⟨none, none⟩) = (Artifacts.syncArtifacts ws host, none) := by
  have hsweep : ∀ arts s, sweep ws backend (fun _ => ⟨none, none⟩) arts s =
      (arts.foldl (syncNext ws) s, none) := by
    intro arts
    induction arts with
    | nil => exact fun _ => rfl
    | cons art arts ih =>
        intro s
        rw [sweep, List.foldl_cons]
        simp only [sizeReply, syncNext]
        split <;> exact ih _
  exact hsweep _ _

end AgentWeb.BestEffort
