import AgentWeb.Uploads

namespace AgentWeb.SyncArtifacts

open PyText UploadChecks Uploads

/-- A call of `sync_artifacts`, at the point it has reached. -/
inductive Sync
  | called
  | listing (stored : List Str)
  /-- The names that are still to be looked at. -/
  | testing (stored names : List Str) (arts : List ArtifactInfo)
  | measuring (stored : List Str) (name : Str) (names : List Str) (arts : List ArtifactInfo)
  | sizing (arts : List ArtifactInfo) (synced : List Str)
  | opening (art : ArtifactInfo) (arts : List ArtifactInfo) (synced : List Str)
  | copying (art : ArtifactInfo) (arts : List ArtifactInfo) (synced : List Str) (copy : Copy)
  | done (synced : List Str)
  | raised
deriving DecidableEq

/-- The next thing that `sync_artifacts` does. The names are those that
`iterdir` gives, each of them once. -/
def advanceSync (settings : Settings) (conversation : Str) (t : Tiers) (names : List Str) :
    Sync → Option (Tiers × Sync)
  | .called =>
      match getStorage settings with
      | .error _ => some (t, .raised)
      | .ok _ =>
          let rows := t.rows.filter (·.conversationId = conversation)
          some (t, .listing (rows.map ConversationFile.storedName))
  | .listing stored => if names.Nodup then some (t, .testing stored names []) else none
  | .testing _ [] arts => some (t, .sizing arts [])
  | .testing stored (name :: names) arts =>
      if (t.files (conversationWorkspace settings conversation, name)).isSome ∧ ¬ stored.contains name then
        some (t, .measuring stored name names arts)
      else some (t, .testing stored names arts)
  | .measuring stored name names arts =>
      match t.files (conversationWorkspace settings conversation, name) with
      | none => some (t, .raised)
      | some content => some (t, .testing stored names (arts ++ [⟨name, content.length⟩]))
  | .sizing [] synced => some (t, .done synced)
  | .sizing (art :: arts) synced =>
      if (t.blobs (durableKey conversation art.name)).map List.length = some art.size then
        some (t, .sizing arts synced)
      else some (t, .opening art arts synced)
  | .opening art arts synced =>
      if (t.files (conversationWorkspace settings conversation, art.name)).isSome then
        some (t, .copying art arts synced .start)
      -- the file is gone, and the sweep goes on
      else some (t, .sizing arts synced)
  | .copying art arts synced copy =>
      let r := copyStep settings.backend t (conversationWorkspace settings conversation, art.name)
        (durableKey conversation art.name) copy
      some (r.1, r.2.elim (.sizing arts (synced ++ [art.name])) (.copying art arts synced))
  | .done _ => none
  | .raised => none

def artNames : Sync → List Str
  | .testing _ names arts => arts.map ArtifactInfo.name ++ names
  | .measuring _ name names arts => arts.map ArtifactInfo.name ++ name :: names
  | .sizing arts _ => arts.map ArtifactInfo.name
  | .opening art arts _ => art.name :: arts.map ArtifactInfo.name
  | .copying art arts _ _ => art.name :: arts.map ArtifactInfo.name
  | _ => []

def Listed : Sync → Prop
  | .called => False
  | .listing _ => False
  | _ => True

variable {settings : Settings} {t t' : Tiers} {conversation : Str} {sync sync' : Sync}
  {names : List Str}

theorem names_of_advance
    (h : advanceSync settings conversation t names sync = some (t', sync')) :
    (Listed sync → Listed sync' ∧ (artNames sync').Sublist (artNames sync)) ∧
      (¬ Listed sync → (artNames sync').Nodup) := by
  have hgone (name : Str) (rest : List Str) : rest.Sublist (name :: rest) :=
    List.sublist_cons_self name rest
  cases sync with
  | called =>
      simp only [advanceSync] at h
      split at h <;> cases h <;> exact ⟨False.elim, fun _ => List.nodup_nil⟩
  | listing stored =>
      simp only [advanceSync] at h
      split at h
      next hnodup =>
        cases h
        exact ⟨False.elim, fun _ => hnodup⟩
      next => cases h
  | testing stored names arts =>
      refine ⟨fun _ => ?_, fun hnot => (hnot trivial).elim⟩
      cases names with
      | nil =>
          cases h
          exact ⟨trivial, List.sublist_append_left _ _⟩
      | cons name names =>
          simp only [advanceSync] at h
          split at h <;> cases h
          · exact ⟨trivial, .refl _⟩
          · exact ⟨trivial, (hgone name names).append_left _⟩
  | measuring stored name names arts =>
      refine ⟨fun _ => ?_, fun hnot => (hnot trivial).elim⟩
      simp only [advanceSync] at h
      split at h <;> cases h
      · exact ⟨trivial, List.nil_sublist _⟩
      · refine ⟨trivial, ?_⟩
        simp only [artNames, List.map_append, List.append_assoc]
        exact .refl _
  | sizing arts synced =>
      refine ⟨fun _ => ?_, fun hnot => (hnot trivial).elim⟩
      cases arts with
      | nil =>
          cases h
          exact ⟨trivial, .refl _⟩
      | cons art arts =>
          simp only [advanceSync] at h
          split at h <;> cases h
          · exact ⟨trivial, hgone art.name _⟩
          · exact ⟨trivial, .refl _⟩
  | opening art arts synced =>
      refine ⟨fun _ => ?_, fun hnot => (hnot trivial).elim⟩
      simp only [advanceSync] at h
      split at h <;> cases h
      · exact ⟨trivial, .refl _⟩
      · exact ⟨trivial, hgone art.name _⟩
  | copying art arts synced copy =>
      refine ⟨fun _ => ?_, fun hnot => (hnot trivial).elim⟩
      simp only [advanceSync] at h
      cases hnext : (copyStep settings.backend t
          (conversationWorkspace settings conversation, art.name)
          (durableKey conversation art.name) copy).2 <;> rw [hnext] at h <;> cases h
      · exact ⟨trivial, hgone art.name _⟩
      · exact ⟨trivial, .refl _⟩
  | done synced => cases h
  | raised => cases h

theorem advanceSync_cases
    (h : advanceSync settings conversation t names sync = some (t', sync')) :
    (t' = t ∧ (∀ art arts synced copy, sync ≠ .copying art arts synced copy) ∧
      ∀ art arts synced copy, sync' = .copying art arts synced copy → copy = .start) ∨
    ∃ art arts synced copy, sync = .copying art arts synced copy ∧
      t' = (copyStep settings.backend t (conversationWorkspace settings conversation, art.name)
        (durableKey conversation art.name) copy).1 ∧
      sync' = (copyStep settings.backend t
        (conversationWorkspace settings conversation, art.name)
        (durableKey conversation art.name) copy).2.elim
          (.sizing arts (synced ++ [art.name])) (.copying art arts synced) := by
  cases sync with
  | called =>
      simp only [advanceSync] at h
      split at h <;> cases h <;> exact .inl ⟨rfl, by simp, by simp⟩
  | listing stored =>
      simp only [advanceSync] at h
      split at h <;> cases h
      exact .inl ⟨rfl, by simp, by simp⟩
  | testing stored names arts =>
      cases names with
      | nil =>
          cases h
          exact .inl ⟨rfl, by simp, by simp⟩
      | cons name names =>
          simp only [advanceSync] at h
          split at h <;> cases h <;> exact .inl ⟨rfl, by simp, by simp⟩
  | measuring stored name names arts =>
      simp only [advanceSync] at h
      split at h <;> cases h <;> exact .inl ⟨rfl, by simp, by simp⟩
  | sizing arts synced =>
      cases arts with
      | nil =>
          cases h
          exact .inl ⟨rfl, by simp, by simp⟩
      | cons art arts =>
          simp only [advanceSync] at h
          split at h <;> cases h <;> exact .inl ⟨rfl, by simp, by simp⟩
  | opening art arts synced =>
      simp only [advanceSync] at h
      split at h <;> cases h
      · refine .inl ⟨rfl, by simp, fun art arts synced copy hcopy => ?_⟩
        cases hcopy
        rfl
      · exact .inl ⟨rfl, by simp, by simp⟩
  | copying art arts synced copy =>
      cases h
      exact .inr ⟨art, arts, synced, copy, rfl, rfl, rfl⟩
  | done synced => cases h
  | raised => cases h

theorem advanceSync_files
    (h : advanceSync settings conversation t names sync = some (t', sync')) :
    t'.files = t.files := by
  obtain ⟨rfl, -, -⟩ | ⟨art, arts, synced, copy, -, rfl, -⟩ := advanceSync_cases h
  · rfl
  · obtain ⟨blobs, hcopy, -⟩ := copyStep_blobs settings.backend t
      (conversationWorkspace settings conversation, art.name)
      (durableKey conversation art.name) copy
    rw [hcopy]

end AgentWeb.SyncArtifacts
