import AgentWeb.Uploads

namespace AgentWeb.UploadFile

open PyText UploadChecks Uploads

variable (settings : Settings)

def Allowed (u : Upload) : Prop :=
  ∀ chunk ∈ (u.body.takeWhile (· ≠ [])).head?,
    sniffMatches chunk settings.uploadAllowedTypes = true

instance (u : Upload) : Decidable (Allowed settings u) :=
  inferInstanceAs (Decidable (∀ chunk ∈ _, _))

def Copied (content : Bytes) (blob : Option Bytes) : Copy → Prop
  | .start => True
  | .gathering data => data <+: content
  | .putting data => data = content
  | .next written => written ≤ content.length ∧ blob = some (content.take written)
  | .writing written chunk =>
      written ≤ content.length ∧ blob = some (content.take written) ∧
        chunk = (content.drop written).take chunkSize ∧ chunk ≠ []

def Own (u : Upload) (file blob : Option Bytes) : Thread → Prop
  | .called w => w = u
  | .opening w _ => w = u
  | .reading w _ size first body => w = u ∧
      (∃ written, file = some written ∧ size = written.length ∧
        written ++ toCome body = u.content) ∧
      if first = true then body = u.body else Allowed settings u
  | .persisting w size => w = u ∧ size = u.size ∧ file = some u.content ∧ Allowed settings u
  | .copying w size copy => w = u ∧ size = u.size ∧ file = some u.content ∧
      Copied u.content blob copy ∧ Allowed settings u
  | .committing w size => w = u ∧ size = u.size ∧ file = some u.content ∧
      blob = some u.content ∧ Allowed settings u
  | .checking row => row = u.row settings u.size ∧ file = some u.content ∧
      blob = some u.content ∧ Allowed settings u ∧ settings.maxUserStorageBytes ≠ 0
  | .removing row _ reply => row = u.row settings u.size ∧ reply = quotaExceeded ∧
      Allowed settings u
  | .done (.stored row) => row = u.row settings u.size ∧ file = some u.content ∧
      blob = some u.content ∧ Allowed settings u
  | .done (.raised _) => True
  | .done .deleted => False
  | .lookingUp _ _ => False

theorem patch_end {content : Bytes} {n : Nat} (h : content.length = n) (bs : Bytes) :
    patch content n bs = content ++ bs := by
  subst h
  simp [patch]

section Copying

variable (backend : Backend) {t : Tiers} {source : Path} {key : Str} {content : Bytes}

theorem copyStep_copied (hsource : t.files source = some content) {copy : Copy}
    (h : Copied content (t.blobs key) copy) :
    let r := copyStep backend t source key copy
    match r.2 with
    | some copy' => Copied content (r.1.blobs key) copy'
    | none => r.1.blobs key = some content := by
  cases copy with
  | start =>
      cases backend with
      | s3 => exact List.nil_prefix
      | localDisk => exact ⟨Nat.zero_le _, by simp [copyStep, Tiers.putBlob]⟩
  | gathering data =>
      have hread : t.readFile source data.length = content.drop data.length := by
        rw [Tiers.readFile, hsource]
        rfl
      obtain ⟨rest, rfl⟩ : data <+: content := h
      rw [List.drop_left] at hread
      by_cases hrest : rest = []
      · subst hrest
        simp only [copyStep, hread, if_true]
        exact (List.append_nil data).symm
      · simp only [copyStep, hread, if_neg hrest]
        exact List.prefix_rfl
  | putting data =>
      have hdata : data = content := h
      simp [copyStep, Tiers.putBlob, hdata]
  | next written =>
      obtain ⟨hle, hblob⟩ := h
      have hread : t.readFile source written = content.drop written := by
        rw [Tiers.readFile, hsource]
        rfl
      by_cases hend : (content.drop written).take chunkSize = []
      · have hall : content.length ≤ written := by
          rw [List.take_eq_nil_iff, List.drop_eq_nil_iff] at hend
          exact hend.resolve_left (by decide)
        simp only [copyStep, hread, if_pos hend]
        rw [hblob, List.take_of_length_le hall]
      · simp only [copyStep, hread, if_neg hend]
        exact ⟨hle, hblob, rfl, hend⟩
  | writing written chunk =>
      obtain ⟨hle, hblob, rfl, -⟩ := h
      have hlen : (content.take written).length = written := by
        rw [List.length_take]
        omega
      have hchunk := List.prefix_iff_eq_take.mp (List.take_prefix chunkSize (content.drop written))
      refine ⟨?_, ?_⟩
      · rw [List.length_take, List.length_drop]
        omega
      · simp only [copyStep, Tiers.writeBlob, Tiers.putBlob, Function.update_self, hblob,
          Option.map_some]
        rw [patch_end hlen, List.take_add, ← hchunk]

def copyRank (n : Nat) : Copy → Nat
  | .start => 2 * n + 3
  | .gathering data => n - data.length + 2
  | .putting _ => 1
  | .next written => 2 * (n - written) + 1
  | .writing written _ => 2 * (n - written)

theorem copyStep_rank (hsource : t.files source = some content) {copy : Copy}
    (h : Copied content (t.blobs key) copy) :
    (copyStep backend t source key copy).2.elim 0 (copyRank content.length) <
      copyRank content.length copy := by
  have hread (n : Nat) : t.readFile source n = content.drop n := by
    rw [Tiers.readFile, hsource]
    rfl
  cases copy with
  | start =>
      cases backend <;> simp only [copyStep, Option.elim_some, copyRank, List.length_nil] <;> omega
  | gathering data =>
      have hle := h.length_le
      simp only [copyStep, hread]
      split
      · simp only [Option.elim_some, copyRank]
        omega
      next hmore =>
        rw [List.drop_eq_nil_iff] at hmore
        simp only [Option.elim_some, copyRank, List.length_append, List.length_drop]
        omega
  | putting data => exact Nat.one_pos
  | next written =>
      simp only [copyStep, hread]
      split
      · exact Nat.succ_pos _
      · simp only [Option.elim_some, copyRank]
        omega
  | writing written chunk =>
      obtain ⟨hle, -, hchunk, hne⟩ := h
      have hpos := List.length_pos_iff.mpr hne
      have hlen := congrArg List.length hchunk
      rw [List.length_take, List.length_drop] at hlen
      simp only [copyStep, Option.elim_some, copyRank]
      omega

end Copying

theorem toCome_cons {chunk : Bytes} (h : chunk ≠ []) (body : List Bytes) :
    toCome (chunk :: body) = chunk ++ toCome body := by
  simp [toCome, h]

theorem chunk_of_toCome_nil {chunk : Bytes} {body : List Bytes} (h : toCome (chunk :: body) = []) :
    chunk = [] := by
  by_contra hne
  rw [toCome_cons hne, List.append_eq_nil_iff] at h
  exact hne h.1

theorem Own.of_end {u : Upload} {file blob : Option Bytes} {used size : Nat} {first : Bool}
    {body : List Bytes} (h : Own settings u file blob (.reading u used size first body))
    (hend : toCome body = []) :
    Own settings u file blob (.persisting u size) := by
  obtain ⟨-, ⟨written, hfile, hsize, hcontent⟩, hfirst⟩ := h
  rw [hend, List.append_nil] at hcontent
  refine ⟨rfl, by rw [hsize, hcontent, Upload.size], by rw [hfile, hcontent], ?_⟩
  split at hfirst
  · have hnone : u.body.takeWhile (· ≠ []) = [] := by
      rw [← hfirst]
      cases body with
      | nil => rfl
      | cons chunk body =>
          by_cases hchunk : chunk = []
          · simp [hchunk]
          · rw [toCome_cons hchunk, List.append_eq_nil_iff] at hend
            exact absurd hend.1 hchunk
    rw [Allowed, hnone]
    exact fun chunk hmem => by cases hmem
  · exact hfirst

theorem Own.of_chunk {u : Upload} {t : Tiers} {blob : Option Bytes} {used size : Nat} {first : Bool}
    {chunk : Bytes} {body : List Bytes} (hchunk : chunk ≠ [])
    (h : Own settings u (t.files (u.dest settings)) blob (.reading u used size first (chunk :: body)))
    (hfirst : ¬ (first = true ∧ ¬ sniffMatches chunk settings.uploadAllowedTypes = true)) :
    Own settings u ((t.writeFile (u.dest settings) size chunk).files (u.dest settings)) blob
      (.reading u used (size + chunk.length) false body) := by
  obtain ⟨-, ⟨written, hfile, hsize, hcontent⟩, hrest⟩ := h
  refine ⟨rfl, ⟨written ++ chunk, ?_, ?_, ?_⟩, ?_⟩
  · simp only [Tiers.writeFile, Tiers.putFile, Function.update_self, hfile, Option.map_some]
    rw [patch_end hsize.symm]
  · rw [List.length_append, hsize]
  · rw [List.append_assoc, ← toCome_cons hchunk, hcontent]
  · rw [if_neg (by decide)]
    split at hrest
    next htrue =>
      rw [Allowed, ← hrest]
      intro c hc
      simp only [hchunk, ne_eq, decide_not, List.takeWhile_cons, decide_false, Bool.not_false,
        if_true, List.head?_cons, Option.mem_some_iff] at hc
      subst hc
      by_contra hsniff
      exact hfirst ⟨htrue, hsniff⟩
    next => exact hrest

variable {settings} {u : Upload} {t t' : Tiers} {th th' : Thread}

theorem own_copyStep {w : Upload} {size : Nat} {copy : Copy}
    (h : Own settings u (t.files (u.dest settings)) (t.blobs u.key) (.copying w size copy)) :
    let r := copyStep settings.backend t (w.dest settings) w.key copy
    w = u ∧ size = u.size ∧ r.1.files (u.dest settings) = some u.content ∧
      (match r.2 with
        | some copy' => Copied u.content (r.1.blobs u.key) copy'
        | none => r.1.blobs u.key = some u.content) ∧ Allowed settings u := by
  obtain ⟨rfl, hsize, hfile, hcopied, hallowed⟩ := h
  have hcopy := copyStep_copied settings.backend hfile hcopied
  obtain ⟨blobs, hblobs, -⟩ := copyStep_blobs settings.backend t (w.dest settings) w.key copy
  exact ⟨rfl, hsize, by rw [hblobs, hfile], hcopy, hallowed⟩

theorem own_of_move {answer : Answer} (hmove : Move settings t answer th t' th')
    (h : Own settings u (t.files (u.dest settings)) (t.blobs u.key) th) :
    Own settings u (t'.files (u.dest settings)) (t'.blobs u.key) th' := by
  cases hmove with
  | begins w => exact h
  | opens w used =>
      obtain rfl : w = u := h
      exact ⟨rfl, ⟨[], by simp [Tiers.putFile], rfl, rfl⟩, rfl⟩
  | notOpened w used => trivial
  | ends hend =>
      obtain rfl := h.1
      exact h.of_end settings hend
  | refuses e hchunk why => trivial
  | receives hchunk fits =>
      obtain rfl := h.1
      exact h.of_chunk settings hchunk fun hfirst => fits (.inl hfirst)
  | notRead => trivial
  | noStore hstore => trivial
  | persists hfile =>
      obtain ⟨rfl, hsize, hfile, hallowed⟩ := h
      exact ⟨rfl, hsize, hfile, trivial, hallowed⟩
  | notPersisted why => trivial
  | copiesOn hnext =>
      have hcopy := own_copyStep h
      simp only [hnext] at hcopy
      exact hcopy
  | copied hnext =>
      have hcopy := own_copyStep h
      simp only [hnext] at hcopy
      exact hcopy
  | notCopied => trivial
  | clashes why => trivial
  | commits hnew hquota =>
      obtain ⟨rfl, rfl, hfile, hblob, hallowed⟩ := h
      exact ⟨rfl, hfile, hblob, hallowed, hquota⟩
  | stores hnew hquota =>
      obtain ⟨rfl, rfl, hfile, hblob, hallowed⟩ := h
      exact ⟨rfl, hfile, hblob, hallowed⟩
  | rollsBack hover =>
      obtain ⟨hrow, hfile, hblob, hallowed, -⟩ := h
      exact ⟨hrow, rfl, hallowed⟩
  | passes hfits =>
      obtain ⟨hrow, hfile, hblob, hallowed, -⟩ := h
      exact ⟨hrow, hfile, hblob, hallowed⟩
  | misses hnone => exact h.elim
  | unreached hstore => exact h.elim
  | finds hrow => exact h.elim
  | removesBlob row reply => exact h
  | removesFile row reply => exact h
  | removesRow row reply =>
      obtain ⟨-, rfl, -⟩ := h
      trivial

def Stocked (settings : Settings) : Thread → Prop
  | .copying _ _ _ | .committing _ _ | .checking _ | .removing _ _ _ | .done (.stored _) =>
      HasStore settings
  | _ => True

theorem stocked_of_move {answer : Answer} (h : Stocked settings th)
    (hmove : Move settings t answer th t' th') : Stocked settings th' := by
  cases hmove with
  | persists hfile hstore => exact ⟨_, hstore⟩
  | finds hrow hstore => exact ⟨_, hstore⟩
  | removesRow row reply => cases reply <;> first | exact h | trivial
  | _ => first | exact h | trivial

structure Frame (settings : Settings) (u : Upload) (t t' : Tiers) : Prop where
  conversations : t'.conversations = t.conversations
  files : ∀ path ≠ u.dest settings, t'.files path = t.files path
  blobs : ∀ key ≠ u.key, t'.blobs key = t.blobs key

theorem Frame.refl (u : Upload) (t : Tiers) : Frame settings u t t :=
  ⟨rfl, fun _ _ => rfl, fun _ _ => rfl⟩

theorem Frame.trans {t'' : Tiers} (h : Frame settings u t t') (h' : Frame settings u t' t'') :
    Frame settings u t t'' :=
  ⟨h'.conversations.trans h.conversations,
    fun path hpath => (h'.files path hpath).trans (h.files path hpath),
    fun key hkey => (h'.blobs key hkey).trans (h.blobs key hkey)⟩

theorem Frame.putFile (u : Upload) (t : Tiers) (content : Option Bytes) :
    Frame settings u t (t.putFile (u.dest settings) content) :=
  ⟨rfl, fun _ hpath => Function.update_of_ne hpath _ _, fun _ _ => rfl⟩

theorem frame_of_move (hmove : Move settings t .ok th t' th')
    (h : Own settings u (t.files (u.dest settings)) (t.blobs u.key) th) : Frame settings u t t' := by
  cases hmove with
  | begins w => exact .refl u t
  | opens w used =>
      obtain rfl : w = u := h
      exact .putFile w t _
  | ends hend => exact .refl u t
  | refuses e hchunk why =>
      obtain rfl := h.1
      exact .putFile _ t _
  | receives hchunk fits =>
      obtain rfl := h.1
      exact .putFile _ t _
  | noStore hstore => exact .refl u t
  | persists hfile => exact .refl u t
  | notPersisted why =>
      obtain rfl := h.1
      exact .putFile _ t _
  | @copiesOn w size copy copy' hnext =>
      obtain rfl : w = u := h.1
      obtain ⟨blobs, hcopy, hblobs⟩ := copyStep_blobs settings.backend t (w.dest settings) w.key copy
      rw [hcopy]
      exact ⟨rfl, fun _ _ => rfl, hblobs⟩
  | @copied w size copy hnext =>
      obtain rfl : w = u := h.1
      obtain ⟨blobs, hcopy, hblobs⟩ := copyStep_blobs settings.backend t (w.dest settings) w.key copy
      rw [hcopy]
      exact ⟨rfl, fun _ _ => rfl, hblobs⟩
  | clashes why => exact .refl u t
  | commits hnew hquota => exact ⟨rfl, fun _ _ => rfl, fun _ _ => rfl⟩
  | stores hnew hquota => exact ⟨rfl, fun _ _ => rfl, fun _ _ => rfl⟩
  | rollsBack hover => exact .refl u t
  | passes hfits => exact .refl u t
  | misses hnone => exact h.elim
  | unreached hstore => exact h.elim
  | finds hrow => exact h.elim
  | removesBlob row reply =>
      obtain rfl := h.1
      exact ⟨rfl, fun _ _ => rfl, fun _ hkey => Function.update_of_ne hkey _ _⟩
  | removesFile row reply =>
      obtain rfl := h.1
      exact .putFile u t _
  | removesRow row reply => exact ⟨rfl, fun _ _ => rfl, fun _ _ => rfl⟩

theorem advance_isSome (settings : Settings) (t : Tiers) (answer : Answer)
    (h : ∀ reply, th ≠ .done reply) : (advance settings t answer th).isSome := by
  cases th with
  | opening w used => cases answer <;> rfl
  | reading w used size first body =>
      cases answer with
      | fails => cases body <;> rfl
      | ok =>
          cases body with
          | nil => rfl
          | cons chunk body =>
              simp only [advance]
              split <;> rfl
  | persisting w size =>
      simp only [advance]
      split
      · rfl
      · split <;> rfl
  | copying w size copy => cases answer <;> rfl
  | checking row =>
      simp only [advance]
      split <;> rfl
  | lookingUp conversation fileId =>
      simp only [advance]
      split
      · rfl
      · split <;> rfl
  | done reply => exact absurd rfl (h reply)
  | called | committing | removing => rfl

def steps (u : Upload) : Nat := 2 * u.size + u.body.length + 12

def rank (u : Upload) : Thread → Nat
  | .called _ => steps u
  | .opening _ _ => 2 * u.size + u.body.length + 11
  | .reading _ _ _ _ body => 2 * u.size + body.length + 10
  | .persisting _ _ => 2 * u.size + 9
  | .copying _ _ copy => copyRank u.size copy + 5
  | .committing _ _ => 5
  | .checking _ => 4
  | .lookingUp _ _ => 4
  | .removing _ .blob _ => 3
  | .removing _ .file _ => 2
  | .removing _ .row _ => 1
  | .done _ => 0

theorem rank_of_move (hmove : Move settings t .ok th t' th')
    (h : Own settings u (t.files (u.dest settings)) (t.blobs u.key) th) : rank u th' < rank u th := by
  cases hmove with
  | begins w =>
      simp only [rank, steps]
      omega
  | opens w used =>
      obtain rfl : w = u := h
      simp only [rank]
      omega
  | ends hend =>
      simp only [rank]
      omega
  | refuses e hchunk why =>
      simp only [rank]
      omega
  | receives hchunk fits =>
      simp only [rank, List.length_cons]
      omega
  | noStore hstore => exact Nat.succ_pos _
  | persists hfile =>
      simp only [rank, copyRank]
      omega
  | notPersisted why => exact Nat.succ_pos _
  | @copiesOn w size copy copy' hnext =>
      obtain ⟨rfl, -, hfile, hcopied, -⟩ := h
      have hfalls := copyStep_rank settings.backend hfile hcopied
      rw [hnext] at hfalls
      exact Nat.add_lt_add_right hfalls 5
  | @copied w size copy hnext =>
      obtain ⟨rfl, -, hfile, hcopied, -⟩ := h
      have hfalls := copyStep_rank settings.backend hfile hcopied
      rw [hnext] at hfalls
      exact Nat.add_lt_add_right hfalls 5
  | misses hnone => exact h.elim
  | unreached hstore => exact h.elim
  | finds hrow => exact h.elim
  | clashes | commits | stores | rollsBack | passes | removesBlob | removesFile | removesRow =>
      simp [rank]

end AgentWeb.UploadFile
