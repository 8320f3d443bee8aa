import AgentWeb.CopyRace
import AgentWeb.SyncArtifacts
import AgentWeb.UploadFile

namespace AgentWeb.SyncRace

open PyText UploadChecks Uploads UploadFile Transitions CopyRace SyncArtifacts

structure Duo where
  tiers : Tiers
  upload : Thread
  sync : Sync

inductive Act
  | upload
  | sync (names : List Str)
deriving DecidableEq

def step (settings : Settings) (conversation : Str) (s : Duo) : Act → Option Duo
  | .upload =>
      (advance settings s.tiers .ok s.upload).map fun r => { s with tiers := r.1, upload := r.2 }
  | .sync names =>
      (advanceSync settings conversation s.tiers names s.sync).map fun r =>
        { s with tiers := r.1, sync := r.2 }

def HasPut : Thread → Prop
  | .committing _ _ => True
  | .checking _ => True
  | .done (.stored _) => True
  | _ => False

instance : (th : Thread) → Decidable (HasPut th)
  | .committing _ _ | .checking _ | .done (.stored _) => .isTrue trivial
  | .called _ | .opening _ _ | .reading _ _ _ _ _ | .persisting _ _ | .copying _ _ _
  | .lookingUp _ _ | .removing _ _ _ | .done .deleted | .done (.raised _) => .isFalse id

/-- The sync is to put a file that it has read less of than has been uploaded,
and the upload has put it before. -/
def Stale (u : Upload) (upload : Thread) : Sync → Prop
  | .copying art _ _ (.putting data) =>
      art.name = u.storedName ∧ data.length < u.size ∧ HasPut upload
  | _ => False

instance (u : Upload) (upload : Thread) : (sync : Sync) → Decidable (Stale u upload sync)
  | .copying _ _ _ (.putting _) => inferInstanceAs (Decidable (_ ∧ _))
  | .copying _ _ _ .start | .copying _ _ _ (.gathering _) | .copying _ _ _ (.next _)
  | .copying _ _ _ (.writing _ _) | .called | .listing _ | .testing _ _ _ | .measuring _ _ _ _
  | .sizing _ _ | .opening _ _ _ | .done _ | .raised => .isFalse id

/-- The sync does not put a stale file into the bucket. -/
def Timely (settings : Settings) (u : Upload) (s : Duo) : Act → Prop
  | .upload => True
  | .sync _ => settings.backend = .s3 → ¬ Stale u s.upload s.sync

instance (settings : Settings) (u : Upload) (s : Duo) :
    (act : Act) → Decidable (Timely settings u s act)
  | .upload => .isTrue trivial
  | .sync _ => inferInstanceAs (Decidable (_ → _))

variable {settings : Settings} {t t' : Tiers} {u : Upload} {th th' : Thread}

theorem copyStep_next (backend : Backend) (blobs : Str → Option Bytes) (source : Path) (key : Str)
    (copy : Copy) : (copyStep backend { t with blobs := blobs } source key copy).2 =
      (copyStep backend t source key copy).2 := by
  cases copy with
  | start => cases backend <;> rfl
  | gathering data =>
      have hread : ({ t with blobs := blobs } : Tiers).readFile source data.length =
        t.readFile source data.length := rfl
      by_cases hmore : t.readFile source data.length = []
      · simp [copyStep, hread, hmore]
      · simp [copyStep, hread, hmore]
  | putting data => rfl
  | next written =>
      have hread : ({ t with blobs := blobs } : Tiers).readFile source written =
        t.readFile source written := rfl
      by_cases hmore : (t.readFile source written).take chunkSize = []
      · simp [copyStep, hread, hmore]
      · simp [copyStep, hread, hmore]
  | writing written chunk => rfl

theorem move_blobs (blobs : Str → Option Bytes) (h : Move settings t .ok th t' th') :
    ∃ t'', Move settings { t with blobs := blobs } .ok th t'' th' ∧ t''.files = t'.files := by
  have hfiles (w : Upload) (copy : Copy) :
      (copyStep settings.backend { t with blobs := blobs } (w.dest settings) w.key copy).1.files =
        (copyStep settings.backend t (w.dest settings) w.key copy).1.files := by
    obtain ⟨blobs₁, hcopy₁, -⟩ := copyStep_blobs settings.backend t (w.dest settings) w.key copy
    obtain ⟨blobs₂, hcopy₂, -⟩ :=
      copyStep_blobs settings.backend { t with blobs := blobs } (w.dest settings) w.key copy
    rw [hcopy₁, hcopy₂]
  cases h with
  | begins w => exact ⟨_, .begins w, rfl⟩
  | opens w used => exact ⟨_, .opens w used, rfl⟩
  | ends hend => exact ⟨_, .ends hend, rfl⟩
  | refuses e hchunk why => exact ⟨_, .refuses e hchunk why, rfl⟩
  | receives hchunk fits => exact ⟨_, .receives hchunk fits, rfl⟩
  | noStore hstore => exact ⟨_, .noStore hstore, rfl⟩
  | persists hfile hstore => exact ⟨_, .persists hfile hstore, rfl⟩
  | notPersisted why hstore => exact ⟨_, .notPersisted why hstore, rfl⟩
  | copiesOn hnext => exact ⟨_, .copiesOn (copyStep_next .. ▸ hnext), hfiles ..⟩
  | copied hnext => exact ⟨_, .copied (copyStep_next .. ▸ hnext), hfiles ..⟩
  | clashes why => exact ⟨_, .clashes why, rfl⟩
  | commits hnew hquota => exact ⟨_, .commits hnew hquota, rfl⟩
  | stores hnew hquota => exact ⟨_, .stores hnew hquota, rfl⟩
  | rollsBack hover => exact ⟨_, .rollsBack hover, rfl⟩
  | passes hfits => exact ⟨_, .passes hfits, rfl⟩
  | misses hnone => exact ⟨_, .misses hnone, rfl⟩
  | unreached hstore => exact ⟨_, .unreached hstore, rfl⟩
  | finds hrow hstore => exact ⟨_, .finds hrow hstore, rfl⟩
  | removesBlob row reply => exact ⟨_, .removesBlob row reply, rfl⟩
  | removesFile row reply => exact ⟨_, .removesFile row reply, rfl⟩
  | removesRow row reply => exact ⟨_, .removesRow row reply, rfl⟩

def Lively : Thread → Prop
  | .removing _ _ _ => False
  | .lookingUp _ _ => False
  | .done (.raised _) => False
  | .done .deleted => False
  | _ => True

def Unopened : Thread → Prop
  | .called _ => True
  | .opening _ _ => True
  | _ => False

def Written : Thread → Prop
  | .persisting _ _ => True
  | .copying _ _ _ => True
  | .committing _ _ => True
  | .checking _ => True
  | .done (.stored _) => True
  | _ => False

structure Uploading (settings : Settings) (u : Upload) (t : Tiers) (th : Thread) : Prop where
  own : ∃ blob, Own settings u (t.files (u.dest settings)) blob th
  unopened : Unopened th → t.files (u.dest settings) = none
  kind : ∀ w size copy, th = .copying w size copy → Of settings.backend copy

theorem unopened_of_move (hmove : Move settings t .ok th t' th') (hopen : Unopened th') :
    Unopened th ∧ t' = t := by
  cases hmove with
  | begins w => exact ⟨trivial, rfl⟩
  | opens | ends | refuses | receives | noStore | persists | notPersisted | copiesOn | copied
  | clashes | commits | stores | rollsBack | passes | misses | unreached | finds | removesBlob
  | removesFile | removesRow => exact hopen.elim

theorem copying_of_move {w : Upload} {size : Nat} {copy' : Copy}
    (hmove : Move settings t .ok th t' (.copying w size copy')) :
    copy' = .start ∨ ∃ copy, th = .copying w size copy ∧
      (copyStep settings.backend t (w.dest settings) w.key copy).2 = some copy' := by
  cases hmove with
  | persists hfile => exact .inl rfl
  | copiesOn hnext => exact .inr ⟨_, rfl, hnext⟩

theorem uploading_move (h : Uploading settings u t th) (hmove : Move settings t .ok th t' th') :
    Uploading settings u t' th' := by
  obtain ⟨blob, hown⟩ := h.own
  obtain ⟨t'', hmove', hfiles⟩ := move_blobs (fun _ => blob) hmove
  have hown' := own_of_move hmove' hown
  refine ⟨⟨_, hfiles ▸ hown'⟩, fun hopen => ?_, fun w size copy hcopy => ?_⟩
  · obtain ⟨hbefore, rfl⟩ := unopened_of_move hmove hopen
    exact h.unopened hbefore
  · subst hcopy
    obtain rfl | ⟨copy₀, rfl, hnext⟩ := copying_of_move hmove
    · cases settings.backend <;> trivial
    · exact copyStep_of (h.kind w size copy₀ rfl) hnext

theorem lively_of_move (hlive : Lively th') (h : Uploading settings u t th)
    (hmove : Move settings t .ok th t' th') : Lively th := by
  obtain ⟨blob, hown⟩ := h.own
  cases hmove with
  | removesBlob row reply => exact hlive
  | removesFile row reply => exact hlive
  | removesRow row reply =>
      obtain ⟨-, rfl, -⟩ := hown
      exact hlive
  | misses hnone => exact hown.elim
  | unreached hstore => exact hown.elim
  | finds hrow => exact hown.elim
  | begins | opens | ends | refuses | receives | noStore | persists | notPersisted | copiesOn
  | copied | clashes | commits | stores | rollsBack | passes => trivial

theorem file_isPrefix (h : Uploading settings u t th) (hlive : Lively th) {f : Bytes}
    (hf : t.files (u.dest settings) = some f) : f <+: u.content := by
  obtain ⟨blob, hown⟩ := h.own
  have hwhole (hfile : t.files (u.dest settings) = some u.content) : f <+: u.content := by
    cases hf.symm.trans hfile
    exact List.prefix_rfl
  cases th with
  | called w => cases hf.symm.trans (h.unopened trivial)
  | opening w used => cases hf.symm.trans (h.unopened trivial)
  | reading w used size first body =>
      obtain ⟨-, ⟨written, hfile, -, hcontent⟩, -⟩ := hown
      cases hf.symm.trans hfile
      exact ⟨_, hcontent⟩
  | persisting w size => exact hwhole hown.2.2.1
  | copying w size copy => exact hwhole hown.2.2.1
  | committing w size => exact hwhole hown.2.2.1
  | checking row => exact hwhole hown.2.1
  | lookingUp conversation fileId => exact hown.elim
  | removing row left reply => exact hlive.elim
  | done reply =>
      cases reply with
      | stored row => exact hwhole hown.2.1
      | deleted => exact hlive.elim
      | raised e => exact hlive.elim

theorem file_whole (h : Uploading settings u t th) (hwritten : Written th) :
    t.files (u.dest settings) = some u.content := by
  obtain ⟨blob, hown⟩ := h.own
  cases th with
  | persisting w size => exact hown.2.2.1
  | copying w size copy => exact hown.2.2.1
  | committing w size => exact hown.2.2.1
  | checking row => exact hown.2.1
  | done reply =>
      cases reply with
      | stored row => exact hown.2.1
      | deleted => exact hwritten.elim
      | raised e => exact hwritten.elim
  | called | opening | reading | lookingUp | removing => exact hwritten.elim

def Reads (settings : Settings) (u : Upload) : Sync → Prop
  | .copying art _ _ copy =>
      Of settings.backend copy ∧ (art.name = u.storedName → Held u.content copy)
  | _ => True

theorem copyStep_elsewhere {name : Str} (h : name ≠ u.storedName) (backend : Backend) (t : Tiers)
    (source : Path) (copy : Copy) :
    (copyStep backend t source (durableKey u.conversation name) copy).1.blobs u.key =
      t.blobs u.key := by
  have hkey : u.key ≠ durableKey u.conversation name := by
    simpa [Upload.key, durableKey] using h.symm
  obtain ⟨blobs, hcopy, hblobs⟩ :=
    copyStep_blobs backend t source (durableKey u.conversation name) copy
  rw [hcopy]
  exact hblobs u.key hkey

structure Racing (settings : Settings) (u : Upload) (s : Duo) : Prop where
  uploading : Uploading settings u s.tiers s.upload
  reads : Lively s.upload → Reads settings u s.sync
  distinct : (artNames s.sync).Nodup

theorem Uploading.congr (h : Uploading settings u t th) (hfiles : t'.files = t.files) :
    Uploading settings u t' th where
  own := by
    obtain ⟨blob, hown⟩ := h.own
    exact ⟨blob, hfiles ▸ hown⟩
  unopened := fun hopen => hfiles ▸ h.unopened hopen
  kind := h.kind

theorem racing_step {s s' : Duo} {act : Act} (h : Racing settings u s)
    (hstep : step settings u.conversation s act = some s') : Racing settings u s' := by
  cases act with
  | upload =>
      obtain ⟨⟨t', th'⟩, hadvance, rfl⟩ := Option.map_eq_some_iff.mp hstep
      have hmove := move_of_advance hadvance
      exact ⟨uploading_move h.uploading hmove,
        fun hlive => h.reads (lively_of_move hlive h.uploading hmove), h.distinct⟩
  | sync names =>
      obtain ⟨⟨t', sync'⟩, hadvance, rfl⟩ := Option.map_eq_some_iff.mp hstep
      have hnames := names_of_advance hadvance
      refine ⟨h.uploading.congr (advanceSync_files hadvance), fun hlive => ?_, ?_⟩
      · have hfile := fun f => file_isPrefix h.uploading hlive (f := f)
        obtain ⟨rfl, -, hstart⟩ | ⟨art, arts, synced, copy, hsync, rfl, rfl⟩ :=
          advanceSync_cases hadvance
        · cases sync' with
          | copying art arts synced copy =>
              obtain rfl := hstart art arts synced copy rfl
              exact ⟨by cases settings.backend <;> trivial, fun _ => trivial⟩
          | called | listing | testing | measuring | sizing | opening | done | raised => trivial
        · have hreads := h.reads hlive
          rw [hsync] at hreads
          cases hnext : (copyStep settings.backend s.tiers
              (conversationWorkspace settings u.conversation, art.name)
              (durableKey u.conversation art.name) copy).2 with
          | none => trivial
          | some copy' =>
              refine ⟨copyStep_of hreads.1 hnext, fun hname => ?_⟩
              refine copyStep_held (fun f hf => ?_) (hreads.2 hname) hnext
              exact hfile f (by rw [Upload.dest, ← hname, hf])
      · by_cases hlisted : Listed s.sync
        · exact h.distinct.sublist (hnames.1 hlisted).2
        · exact hnames.2 hlisted

def Begun : Thread → Prop
  | .copying _ _ (.next _) => True
  | .copying _ _ (.writing _ _) => True
  | th => HasPut th

def uploadAt : Thread → Option Nat
  | .copying _ _ copy => copyAt copy
  | _ => none

def syncAt (u : Upload) : Sync → Option Nat
  | .copying art _ _ copy => if art.name = u.storedName then copyAt copy else none
  | _ => none

theorem written_of_begun (h : Begun th) : Written th := by
  cases th with
  | copying | committing | checking => trivial
  | done reply =>
      cases reply with
      | stored row => trivial
      | deleted => exact h.elim
      | raised e => exact h.elim
  | called | opening | reading | persisting | lookingUp | removing => exact h.elim

theorem Uploading.copied {w : Upload} {size : Nat} {copy : Copy}
    (h : Uploading settings u t (.copying w size copy)) :
    w = u ∧ Held u.content copy ∧ ∀ data, copy = .putting data → data = u.content := by
  obtain ⟨blob, rfl, -, -, hcopied, -⟩ := h.own
  refine ⟨rfl, ?_, fun data hdata => ?_⟩
  · cases copy with
    | start | next => trivial
    | gathering data => exact hcopied
    | putting data => exact hcopied ▸ List.prefix_rfl
    | writing written chunk =>
        obtain ⟨-, -, rfl, hne⟩ := hcopied
        exact ⟨List.take_prefix _ _, hne⟩
  · subst hdata
    exact hcopied

theorem landed_upload {q : Option Nat} (h : Uploading settings u t th)
    (hlanded : Begun th → Landed u.content (t.blobs u.key) (uploadAt th) q)
    (hmove : Move settings t .ok th t' th') (hbegun : Begun th') :
    Landed u.content (t'.blobs u.key) (uploadAt th') q := by
  have hcopied {w : Upload} {size : Nat} {copy : Copy} {next : Option Copy}
      (hnext : (copyStep settings.backend t (w.dest settings) w.key copy).2 = next)
      (hth : th = .copying w size copy) (hbefore : Begun th) : Landed u.content
        ((copyStep settings.backend t (w.dest settings) w.key copy).1.blobs u.key)
        (next.bind copyAt) q := by
    subst hth hnext
    obtain ⟨rfl, hheld, hput⟩ := h.copied
    exact copyStep_landed settings.backend (file_whole h trivial) hheld hput (hlanded hbefore)
  cases hmove with
  | @copiesOn w size copy copy' hnext =>
      cases copy with
      | start =>
          obtain ⟨rfl, -, -⟩ := h.copied
          cases hbackend : settings.backend with
          | s3 =>
              simp only [hbackend, copyStep] at hnext
              cases hnext
              exact hbegun.elim
          | localDisk =>
              simp only [hbackend, copyStep] at hnext
              cases hnext
              exact landed_emptied
      | gathering data =>
          simp only [copyStep] at hnext
          split at hnext <;> cases hnext <;> exact hbegun.elim
      | putting data => cases hnext
      | next written => exact hcopied hnext rfl trivial
      | writing written chunk => exact hcopied hnext rfl trivial
  | @copied w size copy hnext =>
      cases copy with
      | start => cases hbackend : settings.backend <;> simp [hbackend, copyStep] at hnext
      | gathering data =>
          simp only [copyStep] at hnext
          split at hnext <;> cases hnext
      | putting data =>
          obtain ⟨rfl, -, hput⟩ := h.copied
          obtain rfl := hput data rfl
          exact .inl (by simp [copyStep, Tiers.putBlob])
      | next written => exact hcopied hnext rfl trivial
      | writing written chunk => cases hnext
  | commits hnew hquota => exact hlanded trivial
  | stores hnew hquota => exact hlanded trivial
  | passes hfits => exact hlanded trivial
  | removesRow row reply =>
      obtain ⟨blob, -, rfl, -⟩ := h.own
      exact hbegun.elim
  | begins | opens | ends | refuses | receives | noStore | persists | notPersisted | clashes
  | rollsBack | misses | unreached | finds | removesBlob | removesFile => exact hbegun.elim

theorem landed_sync {sync sync' : Sync} {names : List Str} {p : Option Nat}
    (hfile : t.files (u.dest settings) = some u.content) (hreads : Reads settings u sync)
    (hput : ∀ art arts synced data, sync = .copying art arts synced (.putting data) →
      art.name = u.storedName → data = u.content)
    (h : Landed u.content (t.blobs u.key) p (syncAt u sync))
    (hstep : advanceSync settings u.conversation t names sync = some (t', sync')) :
    Landed u.content (t'.blobs u.key) p (syncAt u sync') := by
  obtain ⟨rfl, hnot, hstart⟩ | ⟨art, arts, synced, copy, rfl, rfl, rfl⟩ := advanceSync_cases hstep
  · have hnone : syncAt u sync = none := by
      cases sync with
      | copying art arts synced copy => exact absurd rfl (hnot art arts synced copy)
      | called | listing | testing | measuring | sizing | opening | done | raised => rfl
    have hnone' : syncAt u sync' = none := by
      cases sync' with
      | copying art arts synced copy =>
          obtain rfl := hstart art arts synced copy rfl
          simp [syncAt, copyAt]
      | called | listing | testing | measuring | sizing | opening | done | raised => rfl
    rw [hnone']
    rwa [hnone] at h
  · by_cases hname : art.name = u.storedName
    · have hdest : (conversationWorkspace settings u.conversation, art.name) = u.dest settings := by
        rw [hname]
        rfl
      have hkey : durableKey u.conversation art.name = u.key := by
        rw [hname]
        rfl
      rw [hdest, hkey]
      have hat : syncAt u (.copying art arts synced copy) = copyAt copy := by
        rw [syncAt, if_pos hname]
      rw [hat] at h
      have hlanded := copyStep_landed settings.backend hfile (hreads.2 hname)
        (fun data hdata => hput art arts synced data (by rw [hdata]) hname) h.symm
      cases hnext : (copyStep settings.backend t (u.dest settings) u.key copy).2 with
      | none =>
          rw [hnext] at hlanded
          exact hlanded.symm
      | some copy' =>
          rw [hnext] at hlanded
          rw [Option.elim_some, syncAt, if_pos hname]
          exact hlanded.symm
    · rw [copyStep_elsewhere hname]
      rw [syncAt, if_neg hname] at h
      cases (copyStep settings.backend t (conversationWorkspace settings u.conversation, art.name)
          (durableKey u.conversation art.name) copy).2 with
      | none => exact h
      | some copy' =>
          rw [Option.elim_some, syncAt, if_neg hname]
          exact h

/-- The durable copy is right once the upload has begun to write it. -/
def Lands (u : Upload) (s : Duo) : Prop :=
  Begun s.upload → Landed u.content (s.tiers.blobs u.key) (uploadAt s.upload) (syncAt u s.sync)

theorem lively_of_begun (h : Begun th) : Lively th := by
  cases th with
  | done reply => cases reply with
    | stored row => trivial
    | deleted => exact h.elim
    | raised e => exact h.elim
  | removing | lookingUp => exact h.elim
  | called | opening | reading | persisting | copying | committing | checking => trivial

theorem hasPut_of_begun (h : Uploading settings u t th) (hbackend : settings.backend = .s3)
    (hbegun : Begun th) : HasPut th := by
  cases th with
  | copying w size copy =>
      have hkind := h.kind w size copy rfl
      rw [hbackend] at hkind
      cases copy with
      | next | writing => exact hkind.elim
      | start | gathering | putting => exact hbegun
  | called | opening | reading | persisting | committing | checking | lookingUp | removing
  | done => exact hbegun

theorem lands_step {s s' : Duo} {act : Act} (h : Racing settings u s) (hlands : Lands u s)
    (htimely : Timely settings u s act) (hstep : step settings u.conversation s act = some s') :
    Lands u s' := by
  intro hbegun
  cases act with
  | upload =>
      obtain ⟨⟨t', th'⟩, hadvance, rfl⟩ := Option.map_eq_some_iff.mp hstep
      exact landed_upload h.uploading hlands (move_of_advance hadvance) hbegun
  | sync names =>
      obtain ⟨⟨t', sync'⟩, hadvance, rfl⟩ := Option.map_eq_some_iff.mp hstep
      have hreads := h.reads (lively_of_begun hbegun)
      refine landed_sync (file_whole h.uploading (written_of_begun hbegun)) hreads ?_
        (hlands hbegun) hadvance
      intro art arts synced data hsync hname
      rw [hsync] at hreads
      have hbackend : settings.backend = .s3 := by
        cases hb : settings.backend with
        | s3 => rfl
        | localDisk =>
            have hof := hreads.1
            rw [hb] at hof
            exact hof.elim
      have hpre : data <+: u.content := hreads.2 hname
      have hnot := htimely hbackend
      rw [hsync] at hnot
      have hge : ¬ data.length < u.size := fun hlt =>
        hnot ⟨hname, hlt, hasPut_of_begun h.uploading hbackend hbegun⟩
      exact hpre.eq_of_length_le (Nat.le_of_not_lt hge)

def Spoilt (u : Upload) (s : Duo) : Prop :=
  (Lively s.upload → HasPut s.upload ∧ s.tiers.blobs u.key ≠ some u.content) ∧
    Listed s.sync ∧ u.storedName ∉ artNames s.sync

theorem hasPut_of_move (hput : HasPut th) (hlive : Lively th')
    (hmove : Move settings t .ok th t' th') : HasPut th' ∧ t'.blobs = t.blobs := by
  cases hmove with
  | clashes why => exact hlive.elim
  | commits hnew hquota => exact ⟨trivial, rfl⟩
  | stores hnew hquota => exact ⟨trivial, rfl⟩
  | rollsBack hover => exact hlive.elim
  | passes hfits => exact ⟨trivial, rfl⟩
  | begins | opens | ends | refuses | receives | noStore | persists | notPersisted | copiesOn
  | copied | misses | unreached | finds | removesBlob | removesFile | removesRow =>
      exact hput.elim

theorem spoilt_step {s s' : Duo} {act : Act} (h : Racing settings u s) (hspoilt : Spoilt u s)
    (hstep : step settings u.conversation s act = some s') : Spoilt u s' := by
  obtain ⟨hput, hlisted, hover⟩ := hspoilt
  cases act with
  | upload =>
      obtain ⟨⟨t', th'⟩, hadvance, rfl⟩ := Option.map_eq_some_iff.mp hstep
      have hmove := move_of_advance hadvance
      refine ⟨fun hlive => ?_, hlisted, hover⟩
      obtain ⟨hput, hblob⟩ := hput (lively_of_move hlive h.uploading hmove)
      obtain ⟨hput', hblobs⟩ := hasPut_of_move hput hlive hmove
      exact ⟨hput', by rwa [hblobs]⟩
  | sync names =>
      obtain ⟨⟨t', sync'⟩, hadvance, rfl⟩ := Option.map_eq_some_iff.mp hstep
      obtain ⟨hlisted', hsub⟩ := (names_of_advance hadvance).1 hlisted
      have hover' : u.storedName ∉ artNames sync' := fun hmem => hover (hsub.subset hmem)
      refine ⟨fun hlive => ⟨(hput hlive).1, ?_⟩, hlisted', hover'⟩
      have hblob := (hput hlive).2
      obtain ⟨rfl, -, -⟩ | ⟨art, arts, synced, copy, hsync, rfl, rfl⟩ := advanceSync_cases hadvance
      · exact hblob
      · have hname : art.name ≠ u.storedName := by
          rw [hsync] at hover
          exact fun heq => hover (heq ▸ List.mem_cons_self)
        simp only
        rwa [copyStep_elsewhere hname]

theorem spoilt_of_stale {s s' : Duo} {act : Act} (h : Racing settings u s)
    (hstale : ¬ Timely settings u s act) (hstep : step settings u.conversation s act = some s') :
    Spoilt u s' := by
  cases act with
  | upload => exact absurd trivial hstale
  | sync names =>
      obtain ⟨⟨t', sync'⟩, hadvance, rfl⟩ := Option.map_eq_some_iff.mp hstep
      obtain ⟨hbackend, hstale⟩ := Classical.not_imp.mp hstale
      rw [not_not] at hstale
      have hdistinct := h.distinct
      cases hsync : s.sync with
      | copying art arts synced copy =>
          rw [hsync] at hstale hadvance hdistinct
          cases copy with
          | putting data =>
              obtain ⟨hname, hlt, hput⟩ := hstale
              cases hadvance
              refine ⟨fun _ => ⟨hput, ?_⟩, trivial, ?_⟩
              · have hblob : (s.tiers.putBlob (durableKey u.conversation art.name)
                    (some data)).blobs u.key = some data := by
                  rw [hname]
                  exact Function.update_self ..
                intro heq
                cases hblob.symm.trans heq
                exact Nat.lt_irrefl _ hlt
              · exact hname ▸ (List.nodup_cons.mp hdistinct).1
          | start | gathering | next | writing => exact hstale.elim
      | called | listing | testing | measuring | sizing | opening | done | raised =>
          rw [hsync] at hstale
          exact hstale.elim

section Runs

variable {s s' : Duo} {acts : List Act}

theorem lands_of_timely (hracing : Racing settings u s) (hlands : Lands u s)
    (htimely : EachStep (step settings u.conversation) (Timely settings u) s acts)
    (hrun : run (step settings u.conversation) s acts = some s') : Lands u s' := by
  induction acts generalizing s with
  | nil =>
      cases hrun
      exact hlands
  | cons act acts ih =>
      obtain ⟨s₁, hstep, hrun⟩ := run_cons_eq_some.mp hrun
      exact ih (racing_step hracing hstep) (lands_step hracing hlands htimely.1 hstep)
        (htimely.2 s₁ hstep) hrun

theorem spoilt_run (hracing : Racing settings u s) (hspoilt : Spoilt u s)
    (hrun : run (step settings u.conversation) s acts = some s') : Spoilt u s' :=
  (run_invariant (I := fun s => Racing settings u s ∧ Spoilt u s)
    (fun _ _ _ h hstep => ⟨racing_step h.1 hstep, spoilt_step h.1 h.2 hstep⟩)
    ⟨hracing, hspoilt⟩ hrun).2

theorem spoilt_of_not_timely (hracing : Racing settings u s)
    (hnot : ¬ EachStep (step settings u.conversation) (Timely settings u) s acts)
    (hrun : run (step settings u.conversation) s acts = some s') : Spoilt u s' := by
  induction acts generalizing s with
  | nil => exact absurd trivial hnot
  | cons act acts ih =>
      obtain ⟨s₁, hstep, hrun⟩ := run_cons_eq_some.mp hrun
      have hracing₁ := racing_step hracing hstep
      by_cases htimely : Timely settings u s act
      · exact ih hracing₁ (fun hrest => hnot (.cons htimely hstep hrest)) hrun
      · exact spoilt_run hracing₁ (spoilt_of_stale hracing htimely hstep) hrun

/-- After an upload under a new name and a sync, the durable copy is whole if
and only if the sync has not put a stale part of it. -/
theorem whole_iff_timely {t : Tiers} {row : ConversationFile} {synced : List Str}
    (hnew : t.files (u.dest settings) = none)
    (hrun : run (step settings u.conversation) ⟨t, .called u, .called⟩ acts = some s)
    (hstored : s.upload = .done (.stored row)) (hsynced : s.sync = .done synced) :
    s.tiers.blobs u.key = some u.content ↔
      EachStep (step settings u.conversation) (Timely settings u) ⟨t, .called u, .called⟩ acts := by
  have hracing : Racing settings u ⟨t, .called u, .called⟩ := by
    refine ⟨⟨⟨none, rfl⟩, fun _ => hnew, ?_⟩, fun _ => trivial, List.nodup_nil⟩
    intro w size copy hcopy
    cases hcopy
  constructor
  · intro hwhole
    by_contra hnot
    have hspoilt := spoilt_of_not_timely hracing hnot hrun
    rw [Spoilt, hstored] at hspoilt
    exact (hspoilt.1 trivial).2 hwhole
  · intro htimely
    have hlands := lands_of_timely hracing False.elim htimely hrun
    rw [Lands, hstored, hsynced] at hlands
    exact (hlands trivial).of_none

end Runs

def findsIt (n : Nat) : List Act := List.replicate n (.sync [firstSix.storedName])

def uploads (n : Nat) : List Act := List.replicate n .upload

/-- The sync comes to the end of the file while it is empty, and it is through
before the upload has written anything. -/
def syncFirst : List Act := uploads 2 ++ findsIt 11 ++ uploads 9

theorem whole_iff_timely_syncFirst :
    ∃ s, run (step tenBytes "cnv_1") ⟨oneConversation, .called firstSix, .called⟩ syncFirst = some s ∧
      s.sync = .done [firstSix.storedName] ∧ s.tiers.blobs firstSix.key = some firstSix.content := by
  obtain ⟨s, hrun, hstored, hsynced⟩ : ∃ s, run (step tenBytes firstSix.conversation)
      ⟨oneConversation, .called firstSix, .called⟩ syncFirst = some s ∧
      s.upload = .done (.stored (firstSix.row tenBytes firstSix.size)) ∧
      s.sync = .done [firstSix.storedName] := ⟨_, rfl, by decide, by decide⟩
  have htimely : EachStep (step tenBytes firstSix.conversation) (Timely tenBytes firstSix)
      ⟨oneConversation, .called firstSix, .called⟩ syncFirst := by decide
  exact ⟨s, hrun, hsynced, (whole_iff_timely rfl hrun hstored hsynced).mpr htimely⟩

def syncLast : List Act := uploads 2 ++ findsIt 9 ++ uploads 9 ++ findsIt 2

theorem not_whole_syncLast :
    ¬ ∀ (settings : Settings) (u : Upload) (t : Tiers) (acts : List Act) (s : Duo)
        (row : ConversationFile) (synced : List Str), t.files (u.dest settings) = none →
      run (step settings u.conversation) ⟨t, .called u, .called⟩ acts = some s →
      s.upload = .done (.stored row) → s.sync = .done synced →
        s.tiers.blobs u.key = some u.content := by
  intro h
  obtain ⟨s, hrun, hstored, hsynced, hblob⟩ : ∃ s, run (step tenBytes firstSix.conversation)
      ⟨oneConversation, .called firstSix, .called⟩ syncLast = some s ∧
      s.upload = .done (.stored (firstSix.row tenBytes firstSix.size)) ∧
      s.sync = .done [firstSix.storedName] ∧ s.tiers.blobs firstSix.key = some [] :=
    ⟨_, rfl, by decide, by decide, by decide⟩
  have hwhole := h _ _ _ _ s _ _ rfl hrun hstored hsynced
  rw [hblob] at hwhole
  exact absurd hwhole (by decide)

end AgentWeb.SyncRace
