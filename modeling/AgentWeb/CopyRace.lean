import AgentWeb.Uploads
import Mathlib.Data.List.Infix

namespace AgentWeb.CopyRace

open PyText UploadChecks Uploads

variable {t : Tiers}

section Patches

variable {content b chunk : Bytes} {w offset : Nat}

theorem patch_getElem? (b : Bytes) (offset : Nat) (chunk : Bytes) (i : Nat) :
    (patch b offset chunk)[i]? =
      if i < offset then (b ++ List.replicate (offset - b.length) 0)[i]?
      else if i < offset + chunk.length then chunk[i - offset]? else b[i]? := by
  have hhead : b.take offset ++ List.replicate (offset - b.length) 0 =
      (b ++ List.replicate (offset - b.length) 0).take offset := by
    rw [List.take_append, List.take_replicate, Nat.min_self]
  have hlen : (b.take offset ++ List.replicate (offset - b.length) (0 : UInt8)).length = offset := by
    rw [List.length_append, List.length_take, List.length_replicate]
    omega
  rw [patch, List.append_assoc, List.getElem?_append, hlen]
  split
  next hi => rw [hhead, List.getElem?_take_of_lt hi]
  next hi =>
    rw [List.getElem?_append]
    by_cases hin : i < offset + chunk.length
    · rw [if_pos (by omega), if_pos hin]
    · rw [if_neg (by omega), if_neg hin, List.getElem?_drop]
      congr 1
      omega

theorem patch_length (b : Bytes) (offset : Nat) (chunk : Bytes) :
    (patch b offset chunk).length = max b.length (offset + chunk.length) := by
  simp only [patch, List.length_append, List.length_take, List.length_replicate, List.length_drop]
  omega

structure Good (content b : Bytes) (w : Nat) : Prop where
  le : b.length ≤ content.length
  upTo : w ≤ b.length
  same : ∀ i < w, b[i]? = content[i]?

theorem Good.eq (h : Good content b w) (hw : content.length ≤ w) : b = content := by
  refine List.ext_getElem? fun i => ?_
  rcases Nat.lt_or_ge i w with hlt | hge
  · exact h.same i hlt
  · have hle := h.le
    rw [List.getElem?_eq_none (by omega), List.getElem?_eq_none (by omega)]

theorem Good.refl (content : Bytes) : Good content content content.length :=
  ⟨Nat.le_refl _, Nat.le_refl _, fun _ _ => rfl⟩

theorem chunk_le (hchunk : chunk <+: content.drop offset) (hne : chunk ≠ []) :
    offset + chunk.length ≤ content.length := by
  have hle := hchunk.length_le
  have hpos := List.length_pos_iff.mpr hne
  rw [List.length_drop] at hle
  omega

theorem chunk_getElem? (hchunk : chunk <+: content.drop offset) {i : Nat} (hi : offset ≤ i)
    (hin : i < offset + chunk.length) : chunk[i - offset]? = content[i]? := by
  obtain ⟨rest, hrest⟩ := hchunk
  have hat : content[i]? = (content.drop offset)[i - offset]? := by
    rw [List.getElem?_drop]
    congr 1
    omega
  rw [hat, ← hrest, List.getElem?_append_left (by omega)]

theorem Good.patch (h : Good content b w) (hchunk : chunk <+: content.drop offset) (hne : chunk ≠ []) :
    Good content (patch b offset chunk) w := by
  have hle := h.le
  have hupTo := h.upTo
  have hchunkLe := chunk_le hchunk hne
  refine ⟨?_, ?_, fun i hi => ?_⟩
  · rw [patch_length]
    omega
  · rw [patch_length]
    omega
  · rw [patch_getElem?]
    split
    · rw [List.getElem?_append_left (by omega), h.same i hi]
    · split
      next hlo hhi => exact chunk_getElem? hchunk (by omega) hhi
      next => exact h.same i hi

theorem Good.extend (h : Good content b w) (hchunk : chunk <+: content.drop w) (hne : chunk ≠ []) :
    Good content (Uploads.patch b w chunk) (w + chunk.length) := by
  have hpatched := h.patch hchunk hne
  refine ⟨hpatched.le, ?_, fun i hi => ?_⟩
  · rw [patch_length]
    omega
  · rcases Nat.lt_or_ge i w with hlt | hge
    · exact hpatched.same i hlt
    · rw [patch_getElem?, if_neg (by omega), if_pos hi]
      exact chunk_getElem? hchunk hge hi

theorem patch_whole (hchunk : chunk <+: content.drop offset) (hne : chunk ≠ []) :
    patch content offset chunk = content :=
  ((Good.refl content).patch hchunk hne).eq (Nat.le_refl _)

end Patches

/-- A copy is at a point of the backend's own `put_stream`. -/
def Of : Backend → Copy → Prop
  | _, .start => True
  | .s3, .gathering _ => True
  | .s3, .putting _ => True
  | .localDisk, .next _ => True
  | .localDisk, .writing _ _ => True
  | _, _ => False

theorem copyStep_of {backend : Backend} {source : Path} {key : Str} {copy copy' : Copy}
    (h : Of backend copy) (hnext : (copyStep backend t source key copy).2 = some copy') :
    Of backend copy' := by
  cases copy with
  | start => cases backend <;> cases hnext <;> trivial
  | gathering data =>
      cases backend with
      | localDisk => exact h.elim
      | s3 =>
          simp only [copyStep] at hnext
          split at hnext <;> cases hnext <;> trivial
  | putting data => cases hnext
  | next written =>
      cases backend with
      | s3 => exact h.elim
      | localDisk =>
          simp only [copyStep] at hnext
          split at hnext <;> cases hnext
          trivial
  | writing written chunk =>
      cases backend with
      | s3 => exact h.elim
      | localDisk =>
          cases hnext
          trivial

def Held (content : Bytes) : Copy → Prop
  | .gathering data => data <+: content
  | .putting data => data <+: content
  | .writing written chunk => chunk <+: content.drop written ∧ chunk ≠ []
  | _ => True

theorem copyStep_held {backend : Backend} {source : Path} {key : Str} {content : Bytes}
    {copy copy' : Copy} (hfile : ∀ f, t.files source = some f → f <+: content)
    (h : Held content copy) (hnext : (copyStep backend t source key copy).2 = some copy') :
    Held content copy' := by
  have hall : t.readFile source 0 <+: content := by
    rw [Tiers.readFile, List.drop_zero]
    cases hf : t.files source with
    | none => exact List.nil_prefix
    | some f => exact hfile f hf
  have hread (n : Nat) : t.readFile source n = (t.readFile source 0).drop n := rfl
  cases copy with
  | start => cases backend <;> cases hnext <;> first | exact List.nil_prefix | trivial
  | gathering data =>
      simp only [copyStep] at hnext
      split at hnext
      · cases hnext
        exact h
      next hmore =>
        cases hnext
        rw [hread] at hmore ⊢
        have hlt : data.length < (t.readFile source 0).length := by
          by_contra hle
          exact hmore (List.drop_eq_nil_iff.mpr (by omega))
        obtain ⟨rest, hrest⟩ := List.prefix_of_prefix_length_le h hall (Nat.le_of_lt hlt)
        have hdata : data ++ (t.readFile source 0).drop data.length = t.readFile source 0 := by
          rw [← hrest, List.drop_left]
        exact (congrArg (· <+: content) hdata).mpr hall
  | putting data => cases hnext
  | next written =>
      simp only [copyStep] at hnext
      split at hnext
      · cases hnext
      next hmore =>
        cases hnext
        exact ⟨(List.take_prefix _ _).trans (hread written ▸ List.IsPrefix.drop hall written), hmore⟩
  | writing written chunk =>
      cases hnext
      trivial

def copyAt : Copy → Option Nat
  | .next written => some written
  | .writing written _ => some written
  | _ => none

def Landed (content : Bytes) (blob : Option Bytes) (p q : Option Nat) : Prop :=
  blob = some content ∨
    ∃ b w, blob = some b ∧ Good content b w ∧ (p = some w ∨ q = some w)

theorem Landed.symm {content : Bytes} {blob : Option Bytes} {p q : Option Nat}
    (h : Landed content blob p q) : Landed content blob q p := by
  obtain h | ⟨b, w, hblob, hgood, hat⟩ := h
  · exact .inl h
  · exact .inr ⟨b, w, hblob, hgood, hat.symm⟩

theorem Landed.of_none {content : Bytes} {blob : Option Bytes} (h : Landed content blob none none) :
    blob = some content := by
  obtain h | ⟨b, w, -, -, hat | hat⟩ := h
  · exact h
  · cases hat
  · cases hat

theorem writeBlob_key {key : Str} {b : Bytes} (hb : t.blobs key = some b) (offset : Nat)
    (chunk : Bytes) : (t.writeBlob key offset chunk).blobs key = some (patch b offset chunk) := by
  simp [Tiers.writeBlob, Tiers.putBlob, hb]

theorem landed_emptied {key : Str} {content : Bytes} {q : Option Nat} :
    Landed content ((t.putBlob key (some [])).blobs key) (some 0) q := by
  refine .inr ⟨[], 0, by simp [Tiers.putBlob], ⟨?_, ?_, ?_⟩, .inl rfl⟩
  · exact Nat.zero_le _
  · exact Nat.le_refl _
  · exact fun i hi => absurd hi (Nat.not_lt_zero i)

/-- The two writers of a durable copy leave it right between them, if they both
copy the whole file. -/
theorem copyStep_landed (backend : Backend) {source : Path} {key : Str} {content : Bytes}
    {copy : Copy} {q : Option Nat} (hfile : t.files source = some content)
    (hheld : Held content copy) (hput : ∀ data, copy = .putting data → data = content)
    (h : Landed content (t.blobs key) (copyAt copy) q) :
    Landed content ((copyStep backend t source key copy).1.blobs key)
      ((copyStep backend t source key copy).2.bind copyAt) q := by
  cases copy with
  | start =>
      cases backend with
      | s3 => exact h
      | localDisk => exact landed_emptied
  | gathering data =>
      simp only [copyStep]
      split <;> exact h
  | putting data =>
      obtain rfl := hput data rfl
      exact .inl (by simp [copyStep, Tiers.putBlob])
  | next written =>
      have hread : t.readFile source written = content.drop written := by
        rw [Tiers.readFile, hfile]
        rfl
      simp only [copyStep, hread]
      split
      next hend =>
        have hall : content.length ≤ written := by
          rw [List.take_eq_nil_iff, List.drop_eq_nil_iff] at hend
          exact hend.resolve_left (by decide)
        obtain h | ⟨b, w, hblob, hgood, hat | hat⟩ := h
        · exact .inl h
        · cases hat
          exact .inl (by rw [hblob, hgood.eq hall])
        · exact .inr ⟨b, w, hblob, hgood, .inr hat⟩
      next => exact h
  | writing written chunk =>
      obtain ⟨hchunk, hne⟩ := hheld
      simp only [copyStep, Option.bind_some, copyAt]
      obtain h | ⟨b, w, hblob, hgood, hat | hat⟩ := h
      · exact .inl (by rw [writeBlob_key h, patch_whole hchunk hne])
      · cases hat
        exact .inr ⟨_, _, writeBlob_key hblob _ _, hgood.extend hchunk hne, .inl rfl⟩
      · exact .inr ⟨_, w, writeBlob_key hblob _ _, hgood.patch hchunk hne, .inr hat⟩

end AgentWeb.CopyRace
