import AgentWeb.UploadFile

namespace AgentWeb.TypeGate

open PyText UploadChecks Uploads UploadFile Transitions

/-- What a call of `store_upload` does next, or what others do to the tiers in the
meantime. -/
inductive Event
  | own (answer : Answer)
  | others (t : Tiers)

def callStep (settings : Settings) (s : Tiers × Thread) : Event → Option (Tiers × Thread)
  | .own answer => advance settings s.1 answer s.2
  | .others t => some (t, s.2)

def FullButLast (n : Nat) : List Bytes → Prop
  | [] => True
  | [last] => last.length ≤ n
  | chunk :: next :: rest => chunk.length = n ∧ FullButLast n (next :: rest)

/-- However the call goes, an upload that is accepted has content of an allowed type. -/
def Gated (settings : Settings) (u : Upload) : Prop :=
  ∀ t events t' row,
    run (callStep settings) (t, .called u) events = some (t', .done (.stored row)) →
      sniffMatches (u.content.take chunkSize) settings.uploadAllowedTypes = true

theorem take_flatten_fullButLast {n : Nat} {chunks : List Bytes} (h : FullButLast n chunks) :
    chunks.flatten.take n = chunks.headD [] := by
  match chunks, h with
  | [], _ => exact List.take_nil
  | [last], h =>
      rw [List.flatten_singleton]
      exact List.take_of_length_le h
  | chunk :: next :: rest, h =>
      rw [List.flatten_cons, ← h.1, List.take_left]
      rfl

variable {settings : Settings} {u : Upload} {t t' : Tiers} {th th' : Thread}

theorem take_content (hbody : FullButLast chunkSize (u.body.takeWhile (· ≠ []))) (h : u.content ≠ []) :
    (u.body.takeWhile (· ≠ [])).head? = some (u.content.take chunkSize) := by
  have htake : u.content.take chunkSize = (u.body.takeWhile (· ≠ [])).headD [] :=
    take_flatten_fullButLast hbody
  rw [htake]
  cases hchunks : u.body.takeWhile (· ≠ []) with
  | nil =>
      rw [Upload.content, toCome, hchunks] at h
      exact absurd rfl h
  | cons chunk chunks => rfl

/-- Where a call stands: it holds the first chunk back, or that one has passed the
gate. A negative quota is noticed at the end. -/
def Passed (settings : Settings) (u : Upload) : Thread → Prop
  | .called w | .opening w _ => w = u
  | .reading w _ _ first body =>
      w = u ∧ if first = true then body = u.body else Allowed settings u
  | .persisting w _ | .copying w _ _ | .committing w _ => w = u ∧ Allowed settings u
  | .checking _ => Allowed settings u
  | .removing _ _ reply => ∃ e, reply = .raised e
  | .done (.stored _) => Allowed settings u ∧ 0 ≤ settings.maxUserStorageBytes
  | .done (.raised _) => True
  | .done .deleted | .lookingUp _ _ => False

theorem allowed_of_end {body : List Bytes} (hbody : toCome body = []) (h : body = u.body) :
    Allowed settings u := by
  rw [Allowed, ← h]
  cases body with
  | nil => exact fun chunk hmem => by cases hmem
  | cons chunk body =>
      rw [chunk_of_toCome_nil hbody, List.takeWhile_cons_of_neg (by simp)]
      exact fun chunk hmem => by cases hmem

theorem allowed_of_chunk {used size : Nat} {first : Bool} {chunk : Bytes} {body : List Bytes}
    (hchunk : chunk ≠ []) (hfits : ¬Refused settings used size first chunk)
    (h : if first = true then chunk :: body = u.body else Allowed settings u) :
    Allowed settings u := by
  split at h
  next hfirst =>
    rw [Allowed, ← h, List.takeWhile_cons_of_pos (by simpa using hchunk), List.head?_cons]
    rintro c ⟨⟩
    by_contra hsniff
    exact hfits (.inl ⟨hfirst, hsniff⟩)
  next => exact h

theorem passed_of_move {answer : Answer} (hmove : Move settings t answer th t' th')
    (h : Passed settings u th) : Passed settings u th' := by
  cases hmove with
  | begins w => exact h
  | opens w used =>
      obtain rfl : w = u := h
      exact ⟨rfl, rfl⟩
  | notOpened w used => trivial
  | @ends w used size first body hend =>
      obtain ⟨rfl, hfirst⟩ := h
      split at hfirst
      next => exact ⟨rfl, allowed_of_end hend hfirst⟩
      next => exact ⟨rfl, hfirst⟩
  | refuses e hchunk why => trivial
  | receives hchunk fits =>
      obtain ⟨rfl, hfirst⟩ := h
      exact ⟨rfl, allowed_of_chunk hchunk fits hfirst⟩
  | notRead => trivial
  | noStore hstore => trivial
  | persists hfile => exact h
  | notPersisted why => trivial
  | copiesOn hnext => exact h
  | copied hnext => exact h
  | notCopied => trivial
  | clashes why => trivial
  | commits hnew hquota => exact h.2
  | stores hnew hquota => exact ⟨h.2, by omega⟩
  | rollsBack hover => exact ⟨_, rfl⟩
  | passes hfits => exact ⟨h, by omega⟩
  | misses hnone => exact h.elim
  | unreached hstore => exact h.elim
  | finds hrow => exact h.elim
  | removesBlob row reply => exact h
  | removesFile row reply => exact h
  | removesRow row reply =>
      obtain ⟨e, rfl⟩ := h
      trivial

/-- What is accepted has been let through by the gate, if there was anything to
look at, and the quota is not below nothing. -/
theorem passed_of_run {events : List Event} {s : Tiers × Thread}
    (h : run (callStep settings) (t, .called u) events = some s) : Passed settings u s.2 := by
  refine run_invariant (I := fun s => Passed settings u s.2) (fun s event s' hs hstep => ?_)
    (show Passed settings u (.called u) from rfl) h
  cases event with
  | own answer => exact passed_of_move (move_of_advance hstep) hs
  | others t =>
      cases hstep
      exact hs

section Empty

def onlyConversation (u : Upload) : Tiers :=
  ⟨[⟨u.conversation, u.user⟩], [], fun _ => none, fun _ => none⟩

theorem advance_reads_nothing (hempty : u.content = []) (used : Nat) (t : Tiers) :
    advance settings t .ok (.reading u used 0 true u.body) = some (t, .persisting u 0) := by
  rw [Upload.content] at hempty
  cases hbody : u.body with
  | nil => rfl
  | cons chunk body =>
      rw [hbody] at hempty
      simp only [advance, if_pos (chunk_of_toCome_nil hempty)]

theorem run_reads_nothing (hempty : u.content = []) (hstore : HasStore settings) (t : Tiers) :
    run (callStep settings) (t, .called u) [.own .ok, .own .ok, .own .ok, .own .ok] =
      some (t.putFile (u.dest settings) (some []), .copying u 0 .start) := by
  have hfile : ((t.putFile (u.dest settings) (some [])).files (u.dest settings)).isSome = true := by
    simp [Tiers.putFile]
  refine run_cons_eq_some.mpr ⟨_, rfl, run_cons_eq_some.mpr ⟨_, rfl, run_cons_eq_some.mpr
    ⟨_, advance_reads_nothing hempty _ _, run_cons_eq_some.mpr ⟨_, ?_, rfl⟩⟩⟩⟩
  obtain ⟨backend, hbackend⟩ := hstore
  simp only [callStep, advance, hbackend, hfile, and_self, if_true]

variable (settings u) in
theorem run_copies_nothing (hfile : t.files (u.dest settings) = some []) :
    ∃ events t', run (callStep settings) (t, .copying u 0 .start) events =
      some (t', .committing u 0) ∧ t'.rows = t.rows ∧ t'.conversations = t.conversations := by
  have hread (blobs : Str → Option Bytes) :
      Tiers.readFile { t with blobs := blobs } (u.dest settings) 0 = [] := by
    rw [Tiers.readFile, hfile]
    rfl
  cases hbackend : settings.backend with
  | s3 =>
      refine ⟨List.replicate 3 (.own .ok), t.putBlob u.key (some []), ?_, rfl, rfl⟩
      simp [List.replicate, run_cons, callStep, advance, copyStep, hbackend, hread t.blobs]
  | localDisk =>
      refine ⟨List.replicate 2 (.own .ok), t.putBlob u.key (some []), ?_, rfl, rfl⟩
      simp [List.replicate, run_cons, callStep, advance, copyStep, hbackend, Tiers.putBlob, hread]

theorem run_commits_nothing (hrows : t.rows = []) (hnew : ¬Clashes t (u.row settings 0))
    (hquota : 0 ≤ settings.maxUserStorageBytes) :
    ∃ events t' row,
      run (callStep settings) (t, .committing u 0) events = some (t', .done (.stored row)) := by
  have hcommit : callStep settings (t, .committing u 0) (.own .ok) =
      some ({ t with rows := t.rows ++ [u.row settings 0] },
        if settings.maxUserStorageBytes ≠ 0 then .checking (u.row settings 0)
        else .done (.stored (u.row settings 0))) :=
    congrArg some (if_neg hnew)
  by_cases hnone : settings.maxUserStorageBytes ≠ 0
  · rw [if_pos hnone] at hcommit
    refine ⟨[.own .ok, .own .ok], _, _, run_cons_eq_some.mpr ⟨_, hcommit,
      run_cons_eq_some.mpr ⟨_, if_neg ?_, rfl⟩⟩⟩
    rw [hrows, List.nil_append, userStorageUsed_row, ite_self]
    exact Int.not_lt.mpr hquota
  · rw [if_neg hnone] at hcommit
    exact ⟨[.own .ok], _, _, run_cons_eq_some.mpr ⟨_, hcommit, rfl⟩⟩

variable (settings u) in
theorem run_stores_nothing (hempty : u.content = []) (hstore : HasStore settings)
    (hquota : 0 ≤ settings.maxUserStorageBytes) :
    ∃ t events t' row,
      run (callStep settings) (t, .called u) events = some (t', .done (.stored row)) := by
  obtain ⟨copies, t', hcopies, hrows, hconversations⟩ := run_copies_nothing settings u
    (t := (onlyConversation u).putFile (u.dest settings) (some [])) (Function.update_self _ _ _)
  have hnew : ¬Clashes t' (u.row settings 0) := by
    rw [Clashes, hrows, hconversations]
    simp [Tiers.putFile, onlyConversation, Upload.row]
  obtain ⟨commits, t'', row, hcommits⟩ := run_commits_nothing hrows hnew hquota
  refine ⟨onlyConversation u,
    [.own .ok, .own .ok, .own .ok, .own .ok] ++ (copies ++ commits), t'', row, ?_⟩
  rw [run_append, run_reads_nothing hempty hstore, Option.bind_some, run_append, hcopies,
    Option.bind_some, hcommits]

end Empty

theorem hasStore_of_run {events : List Event} {row : ConversationFile}
    (h : run (callStep settings) (t, .called u) events = some (t', .done (.stored row))) :
    HasStore settings := by
  refine run_invariant (I := fun s => Stocked settings s.2) (fun s event s' hs hstep => ?_)
    (show Stocked settings (.called u) from trivial) h
  cases event with
  | own answer => exact stocked_of_move hs (move_of_advance hstep)
  | others t =>
      cases hstep
      exact hs

/-- The gate holds for every upload with content. Without any it is never asked. -/
theorem storeUpload_gated_iff (settings : Settings) (u : Upload)
    (hbody : FullButLast chunkSize (u.body.takeWhile (· ≠ []))) :
    Gated settings u ↔ u.content ≠ [] ∨ settings.maxUserStorageBytes < 0 ∨
      sniffMatches [] settings.uploadAllowedTypes = true ∨ ¬ HasStore settings := by
  constructor
  · intro h
    by_contra hcon
    rw [not_or, not_or, not_or, not_not, not_not] at hcon
    obtain ⟨hempty, hquota, hsniff, hstore⟩ := hcon
    obtain ⟨t, events, t', row, hrun⟩ :=
      run_stores_nothing settings u hempty hstore (Int.not_lt.mp hquota)
    have hpassed := h t events t' row hrun
    rw [hempty, List.take_nil] at hpassed
    exact hsniff hpassed
  · intro h t events t' row hrun
    have hpassed : Allowed settings u ∧ 0 ≤ settings.maxUserStorageBytes := passed_of_run hrun
    by_cases hcontent : u.content = []
    · rw [hcontent, List.take_nil]
      rcases h with hne | hquota | hsniff | hstore
      · exact absurd hcontent hne
      · omega
      · exact hsniff
      · exact absurd (hasStore_of_run hrun) hstore
    · exact hpassed.1 _ (take_content hbody hcontent)

def pdfOnly : Settings := { tenBytes with uploadAllowedTypes := ["pdf"] }

theorem storeUpload_gated_six : Gated pdfOnly firstSix :=
  (storeUpload_gated_iff pdfOnly firstSix (show 6 ≤ chunkSize by decide)).mpr (.inl (by decide))

/-- Where only pdf files are allowed, a file with nothing in it is accepted. -/
theorem not_gated_empty :
    ¬∀ (settings : Settings) (u : Upload), settings.uploadAllowedTypes ≠ [] →
      FullButLast chunkSize (u.body.takeWhile (· ≠ [])) → Gated settings u := by
  intro h
  obtain ⟨t, events, t', row, hrun⟩ :=
    run_stores_nothing pdfOnly { firstSix with body := [] } rfl (by decide) (by decide)
  have hpdf := h pdfOnly { firstSix with body := [] } (by decide) trivial t events t' row hrun
  revert hpdf
  decide

end AgentWeb.TypeGate
