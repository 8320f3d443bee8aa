import AgentWeb.Artifacts

namespace AgentWeb.Containment

open PyText UploadChecks PathResolution Storage Artifacts Transitions

variable {ws : Workspace} {host host' : Host}

theorem component_val (name : Name) : component name.val = .down name := by
  rw [component, dif_pos name.property]

theorem pathName_val (name : Name) : pathName name.val = name.val := by
  obtain ⟨hne, hslash, hdot, -⟩ := name.property
  exact pathName_of_component hne hslash hdot

theorem resolved_of_not_link (h : Rooted host.fs ws.location) {name : Name}
    (hlink : isLink ws host name.val = false) :
    resolved ws host name.val = .found (ws.location ++ [name]) ∨
      resolved ws host name.val = .absent (ws.location ++ [name]) := by
  rw [resolved, path, component_val]
  refine resolve_entry h maxLinks fun absolute target hentry => ?_
  rw [isLink, component_val] at hlink
  simp only [hentry, Bool.true_eq_false] at hlink

theorem fileOf_found {fs : Tree Name Bytes} {p : Location} {file : Location × Bytes}
    (h : file ∈ fileOf fs (.found p)) : file.1 = p := by
  simp only [fileOf] at h
  split at h <;> cases h
  rfl

theorem openedAt_found {fs : Tree Name Bytes} {p q : Location} (h : q ∈ openedAt fs (.found p)) :
    q = p := by
  simp only [openedAt] at h
  split at h <;> cases h <;> rfl

theorem file_inside (h : Rooted host.fs ws.location) {name : Name}
    (hlink : isLink ws host name.val = false) {file : Location × Bytes}
    (hfile : file ∈ fileOf host.fs (resolved ws host name.val)) : ws.location <+: file.1 := by
  obtain hr | hr := resolved_of_not_link h hlink
  · rw [hr] at hfile
    exact fileOf_found hfile ▸ List.prefix_append _ _
  · rw [hr] at hfile
    cases hfile

theorem opened_inside (h : Rooted host.fs ws.location) {name : Name}
    (hlink : isLink ws host name.val = false) {p : Location}
    (hp : p ∈ openedAt host.fs (resolved ws host name.val)) : ws.location <+: p := by
  obtain hr | hr := resolved_of_not_link h hlink
  · rw [hr] at hp
    exact openedAt_found hp ▸ List.prefix_append _ _
  · rw [hr] at hp
    cases hp
    exact List.prefix_append _ _

section Listing

theorem mem_artifact {name : Name} {art : Artifact} : art ∈ artifact ws host name ↔
    name.val ∉ stored ws host ∧ art.name = name ∧
      (art.location, art.content) ∈ fileOf host.fs (resolved ws host name.val) := by
  rw [artifact]
  simp only [List.contains_iff_mem]
  split
  next hstored => simp [hstored]
  next hstored =>
    simp only [Option.mem_def, Option.map_eq_some_iff, hstored, not_false_eq_true, true_and]
    constructor
    · rintro ⟨file, hfile, rfl⟩
      exact ⟨rfl, hfile⟩
    · rintro ⟨rfl, hfile⟩
      exact ⟨_, hfile, rfl⟩

theorem artifacts_inside (h : Rooted host.fs ws.location) :
    (∀ art ∈ artifacts ws host, ws.location <+: art.location) ↔
      Contained ws host .listArtifacts := by
  simp only [artifacts, List.mem_filterMap, List.mem_insertionSort]
  constructor
  · intro hinside name hname hstored _ file hfile
    refine hinside ⟨name, file.1, file.2⟩ ⟨name, hname, ?_⟩
    exact mem_artifact.mpr ⟨hstored, rfl, hfile⟩
  · rintro hcontained art ⟨name, hname, hart⟩
    obtain ⟨hstored, -, hfile⟩ := mem_artifact.mp hart
    cases hlink : isLink ws host name.val with
    | false => exact file_inside h hlink hfile
    | true => exact hcontained name hname hstored hlink _ hfile

theorem syncNext_read (s : Synced) (art : Artifact) :
    ∀ p ∈ (syncNext ws s art).read, p ∈ s.read ∨ p = art.location := by
  intro p hp
  simp only [syncNext] at hp
  split at hp
  · exact .inl hp
  · simpa using hp

theorem sync_read (arts : List Artifact) (s : Synced) :
    ∀ p ∈ (arts.foldl (syncNext ws) s).read, p ∈ s.read ∨ p ∈ arts.map Artifact.location := by
  induction arts generalizing s with
  | nil => exact fun p hp => .inl hp
  | cons art arts ih =>
      intro p hp
      rw [List.map_cons, List.mem_cons]
      obtain hp | hp := ih _ p hp
      · obtain hp | hp := syncNext_read s art p hp
        · exact .inl hp
        · exact .inr (.inl hp)
      · exact .inr (.inr hp)

end Listing

theorem artifactPath_file (ws : Workspace) (host : Host) (name : Str)
    (hname : name ≠ [] ∧ pathName name = name) :
    (artifactPath ws host name).file =
      ((fileOf host.fs (resolved ws host name)).map Prod.fst).or
        (if SafeKey (ws.key name) ∧ (host.blobs (ws.key name)).isSome then
          openedAt host.fs (resolved ws host name)
        else none) := by
  have hvalid : ¬ (name = [] ∨ pathName name ≠ name) := by
    rw [not_or, not_not]
    exact hname
  rw [artifactPath, if_neg hvalid]
  cases hfile : fileOf host.fs (resolved ws host name) with
  | some file => rfl
  | none =>
      simp only [Option.map_none, Option.none_or]
      by_cases hsafe : SafeKey (ws.key name)
      · simp only [hsafe, if_true, true_and]
        cases hblob : host.blobs (ws.key name) with
        | none => rfl
        | some content => cases openedAt host.fs (resolved ws host name) <;> rfl
      · simp only [hsafe, if_false, false_and]

theorem safeKey_val (ws : Workspace) (name : Name) : SafeKey (ws.key name.val) :=
  safeKey_durableKeys _ ⟨_, _, ws.conversation.property, name.property, rfl⟩

theorem directory_untouched {fs : Tree Name Bytes} {p : Location}
    (h : entryAt fs p = some .directory) :
    fileOf fs (.found p) = none ∧ openedAt fs (.found p) = none := by
  simp [fileOf, openedAt, h]

theorem openedAt_of_file {fs : Tree Name Bytes} {r : Resolution Name} {file : Location × Bytes}
    (h : file ∈ fileOf fs r) : openedAt fs r = some file.1 := by
  cases r with
  | found p =>
      simp only [fileOf] at h
      split at h
      next hentry =>
        cases h
        simp only [openedAt, hentry]
      next => cases h
  | absent p => cases h
  | failed => cases h

theorem touched_path_inside (h : Rooted host.fs ws.location) {name : Str}
    (hlink : isLink ws host name = false) : ∀ p ∈ (artifactPath ws host name).file, ws.location <+: p := by
  intro p hp
  by_cases hname : name ≠ [] ∧ pathName name = name
  · rw [artifactPath_file ws host name hname, Option.mem_def, Option.or_eq_some_iff] at hp
    cases hcomponent : component name with
    | down x =>
        obtain rfl : x.val = name := by
          rw [component] at hcomponent
          split_ifs at hcomponent
          cases hcomponent
          rfl
        obtain hp | ⟨-, hp⟩ := hp
        · obtain ⟨file, hfile, rfl⟩ := Option.map_eq_some_iff.mp hp
          exact file_inside h hlink hfile
        · split at hp
          · exact opened_inside h hlink hp
          · cases hp
    | up =>
        have hdir := h _ (List.dropLast_prefix ws.location)
        have hr : resolved ws host name = .found ws.location.dropLast := by
          rw [resolved, path, hcomponent]
          exact resolve_up h maxLinks
        simp [hr, directory_untouched hdir] at hp
    | stay =>
        have hdir := h _ List.prefix_rfl
        have hr : resolved ws host name = .found ws.location := by
          rw [resolved, path, hcomponent]
          exact resolve_stay h maxLinks
        simp [hr, directory_untouched hdir] at hp
  · have hinvalid : name = [] ∨ pathName name ≠ name := by
      rw [Classical.not_and_iff_not_or_not, not_not] at hname
      exact hname
    rw [artifactPath, if_pos hinvalid] at hp
    cases hp

theorem exists_val_of_link {name : Str} (hlink : isLink ws host name = true) :
    ∃ x : Name, x.val = name := by
  rw [isLink, component] at hlink
  split_ifs at hlink with hplain
  · exact ⟨⟨name, hplain⟩, rfl⟩

theorem artifactPath_inside (h : Rooted host.fs ws.location) (name : Str) :
    (∀ p ∈ (artifactPath ws host name).file, ws.location <+: p) ↔
      Contained ws host (.artifactPath name) := by
  cases hlink : isLink ws host name with
  | false =>
      refine iff_of_true (touched_path_inside h hlink) fun htrue => ?_
      cases hlink.symm.trans htrue
  | true =>
      obtain ⟨x, rfl⟩ := exists_val_of_link hlink
      have hfile := artifactPath_file ws host x.val ⟨x.property.1, pathName_val x⟩
      simp only [safeKey_val, true_and] at hfile
      rw [hfile, Contained, forall_prop_of_true hlink]
      cases hserved : fileOf host.fs (resolved ws host x.val) with
      | some file =>
          have hopened := openedAt_of_file hserved
          simp only [hopened, Option.map_some, Option.some_or, Option.mem_some_iff, forall_eq']
          exact (and_iff_left_of_imp fun hinside _ => hinside).symm
      | none =>
          cases hblob : host.blobs (ws.key x.val) <;> simp

theorem stays_iff_contained (h : Rooted host.fs ws.location) (act : Act) :
    StaysInside ws host act ↔ Contained ws host act := by
  cases act with
  | agent below => simp [StaysInside, touched, Contained]
  | others rows blobs => simp [StaysInside, touched, Contained]
  | listArtifacts =>
      rw [← artifacts_inside h]
      simp [StaysInside, touched]
  | syncArtifacts =>
      have hlist : Contained ws host .syncArtifacts ↔ Contained ws host .listArtifacts := Iff.rfl
      rw [hlist, ← artifacts_inside h]
      simp only [StaysInside, touched, List.forall_mem_append, List.forall_mem_map]
      refine and_iff_left_of_imp fun hinside p hp => ?_
      obtain hp | hp := sync_read _ _ p hp
      · cases hp
      · obtain ⟨art, hart, rfl⟩ := List.mem_map.mp hp
        exact hinside art hart
  | artifactPath name =>
      rw [← artifactPath_inside h]
      simp [StaysInside, touched]

theorem openedAt_entry {fs : Tree Name Bytes} {dir : Location} {rest : List (Component Name)}
    {p : Location} (hfile : fileOf fs (resolve fs maxLinks dir rest) = none)
    (hp : openedAt fs (resolve fs maxLinks dir rest) = some p) :
    entryAt fs p = none ∨ entryAt fs p = some .special := by
  cases hr : resolve fs maxLinks dir rest with
  | found q =>
      rw [hr] at hfile hp
      simp only [fileOf] at hfile
      simp only [openedAt] at hp
      split at hp
      next hentry =>
        rw [hentry] at hfile
        cases hfile
      next hentry =>
        cases hp
        exact .inr hentry
      next => cases hp
  | absent q =>
      rw [hr] at hp
      cases hp
      exact .inl (absent_of_resolve hr)
  | failed =>
      rw [hr] at hp
      cases hp

theorem rooted_step {act : Act} (h : Rooted host.fs ws.location)
    (hstep : step ws host act = some host') : Rooted host'.fs ws.location := by
  cases act with
  | agent below =>
      cases hstep
      exact h.graft below
  | others rows blobs =>
      cases hstep
      exact h
  | listArtifacts =>
      cases hstep
      exact h
  | syncArtifacts =>
      cases hstep
      exact h
  | artifactPath name =>
      cases hstep
      simp only [artifactPath]
      split
      · exact h
      · split
        · exact h
        next hfile =>
          split
          · split
            · exact h
            next =>
              split
              · exact h
              next p hp => exact h.writeAt (openedAt_entry hfile hp) _
          · exact h

/-- In every run, whatever tree the agent leaves in its workspace between the
calls, they stay inside it if and only if no link that they meet leads outside. -/
theorem inside_iff_contained (ws : Workspace) {host : Host} (h : Rooted host.fs ws.location)
    (acts : List Act) :
    EachStep (step ws) (StaysInside ws) host acts ↔ EachStep (step ws) (Contained ws) host acts :=
  eachStep_congr (fun _ _ _ hrooted hstep => rooted_step hrooted hstep)
    (fun _ act hrooted => stays_iff_contained hrooted act) h

def srv : Name := ⟨"srv", by decide⟩

def cnv1 : Name := ⟨"cnv_1", by decide⟩

def etc : Name := ⟨"etc", by decide⟩

def passwd : Name := ⟨"passwd", by decide⟩

def notes : Name := ⟨"notes.txt", by decide⟩

def report : Name := ⟨"report.txt", by decide⟩

def workspace : Workspace := ⟨[srv, cnv1], cnv1⟩

def emptyWorkspace : Host where
  fs := [([], .directory), ([srv], .directory), ([srv, cnv1], .directory), ([etc], .directory),
    ([etc, passwd], .file [114, 111, 111, 116])]
  rows := []
  blobs := fun _ => none

theorem rooted_emptyWorkspace : Rooted emptyWorkspace.fs workspace.location := by
  intro q hq
  rw [← List.mem_inits] at hq
  simp only [workspace, List.inits, List.map_cons, List.map_nil, List.mem_cons, List.not_mem_nil,
    or_false] at hq
  rcases hq with rfl | rfl | rfl <;> rfl

/-- The agent leaves a file and a link to it. They are synced, then it takes the
link away, which is downloaded again as a file. -/
def linkInside : List Act :=
  [.agent [([report], .file [104, 105]), ([notes], .link false [.stay, .down report])],
    .syncArtifacts, .agent [([report], .file [104, 105])], .artifactPath "notes.txt", .listArtifacts]

theorem inside_iff_contained_linkInside :
    EachStep (step workspace) (StaysInside workspace) emptyWorkspace linkInside :=
  (inside_iff_contained workspace rooted_emptyWorkspace linkInside).mpr (by decide)

/-- The agent leaves a link to a file of the host, which is then downloaded. -/
def linkOutside : List Act :=
  [.agent [([notes], .link true [.down etc, .down passwd])], .artifactPath "notes.txt"]

theorem not_inside_linkOutside :
    ¬ ∀ (ws : Workspace) (host : Host), Rooted host.fs ws.location → ∀ acts : List Act,
      EachStep (step ws) (StaysInside ws) host acts := by
  intro h
  have hstays := ((h workspace emptyWorkspace rooted_emptyWorkspace linkOutside).2 _ rfl).1
  exact absurd (hstays [etc, passwd] (by decide)) (by decide)

end AgentWeb.Containment
