import AgentWeb.Storage
import AgentWeb.Transitions
import Mathlib.Data.Set.Function

namespace AgentWeb.StorageContract

open PyText UploadChecks DirectoryTree Storage Transitions

structure Stores where
  root : LocalStorage.Root
  bucket : S3Storage.Bucket

/-- The same value comes back, or a `StorageError` from both, or some other error from both. -/
def Agree (r r' : Reply) : Prop :=
  (∀ value, r = .ok value ↔ r' = .ok value) ∧
    (r = .error .storageError ↔ r' = .error .storageError)

variable (s : Str)

def step (stores : Stores) (c : Call) : Option Stores :=
  some ⟨(LocalStorage.call stores.root c).1, (S3Storage.call s stores.bucket c).1⟩

def Agrees (stores : Stores) (calls : List Call) : Prop :=
  EachStep (step s) (fun stores c =>
    Agree (LocalStorage.call stores.root c).2 (S3Storage.call s stores.bucket c).2) stores calls

/-- A call on one of the keys, with a stream that raises on some of them at most. -/
def Over (keys raising : Set Str) (c : Call) : Prop :=
  c.key ∈ keys ∧ ∀ key source, c = .putStream key source → source.raises = true → key ∈ raising

/-- The root of a store that is empty: it need not be there. -/
def Fresh (root : LocalStorage.Root) : Prop := root = none ∨ root = some DirectoryTree.empty

/-- Each key has a path of its own, none above that of another one, and none is
the root where that is a directory. -/
structure Separate (root : LocalStorage.Root) (keys : Set Str) : Prop where
  inj : Set.InjOn parts keys
  apart : ∀ key ∈ keys, ∀ key' ∈ keys, ¬ Above (parts key) (parts key')
  rooted : root.isSome = true → ∀ key ∈ keys, parts key ≠ []

structure Twin (start : LocalStorage.Root) (keys : Set Str) (stores : Stores) : Prop where
  same : ∀ key ∈ keys, fileAt (parts key) stores.root = stores.bucket (S3Storage.obj s key)
  files : ∀ p data, fileAt p stores.root = some data → ∃ key ∈ keys, parts key = p
  directories : ∀ p, isDirectory p stores.root = true →
    p = [] ∧ start.isSome = true ∨ ∃ key ∈ keys, Above p (parts key)

variable {s} {start : LocalStorage.Root} {keys raising : Set Str} {stores : Stores} {key : Str}

section Twins

variable (h : Twin s start keys stores) (hsep : Separate start keys) (hkey : key ∈ keys)

include h hsep hkey

theorem Twin.clear : (∀ q, Above q (parts key) → fileAt q stores.root = none) ∧
    isDirectory (parts key) stores.root = false := by
  constructor
  · intro q hq
    by_contra hfile
    obtain ⟨data, hdata⟩ := Option.ne_none_iff_exists'.mp hfile
    obtain ⟨key', hkey', rfl⟩ := h.files q data hdata
    exact hsep.apart key' hkey' key hkey hq
  · by_contra hdir
    obtain ⟨hnil, hstart⟩ | ⟨key', hkey', habove⟩ :=
      h.directories _ ((Bool.not_eq_false _).mp hdir)
    · exact hsep.rooted hstart key hkey hnil
    · exact hsep.apart key hkey key' hkey' habove

theorem Twin.same_update (value : Option Bytes) : ∀ key' ∈ keys,
    (if parts key' = parts key then value else fileAt (parts key') stores.root) =
      Function.update stores.bucket (S3Storage.obj s key) value (S3Storage.obj s key') := by
  intro key' hkey'
  by_cases heq : key' = key
  · rw [heq, if_pos rfl, Function.update_self]
  · rw [if_neg fun hparts => heq (hsep.inj hkey' hkey hparts),
      Function.update_of_ne fun hobj => heq ((S3Storage.obj_inj s).mp hobj)]
    exact h.same key' hkey'

theorem Twin.write (data : Bytes) : ∃ n, DirectoryTree.write (parts key) data stores.root = .ok n ∧
    Twin s start keys
      ⟨some n, Function.update stores.bucket (S3Storage.obj s key) (some data)⟩ := by
  obtain ⟨hfile, hdir⟩ := h.clear hsep hkey
  obtain ⟨n, hn⟩ := write_isOk data hfile hdir
  refine ⟨n, hn, ⟨fun key' hkey' => ?_, fun p data' hp => ?_, fun p hp => ?_⟩⟩
  · simp only [fileAt_write hn]
    exact h.same_update hsep hkey (some data) key' hkey'
  · simp only [fileAt_write hn] at hp
    split at hp
    next hpath => exact ⟨key, hkey, hpath.symm⟩
    next => exact h.files p data' hp
  · obtain hp | hp := (isDirectory_write hn p).mp hp
    · exact h.directories p hp
    · exact .inr ⟨key, hkey, hp⟩

theorem Twin.unlink : ∃ r, DirectoryTree.unlink (parts key) stores.root = .ok r ∧
    Twin s start keys ⟨r, Function.update stores.bucket (S3Storage.obj s key) none⟩ := by
  obtain ⟨hfile, hdir⟩ := h.clear hsep hkey
  obtain ⟨r, hr⟩ := unlink_isOk hfile hdir
  refine ⟨r, hr, ⟨fun key' hkey' => ?_, fun p data' hp => ?_, fun p hp => ?_⟩⟩
  · simp only [(unlink_ok hr _).1]
    exact h.same_update hsep hkey none key' hkey'
  · simp only [(unlink_ok hr _).1] at hp
    split at hp
    · cases hp
    · exact h.files p data' hp
  · exact h.directories p ((unlink_ok hr p).2 hp)

end Twins

theorem Agree.refl (r : Reply) : Agree r r := ⟨fun _ => Iff.rfl, Iff.rfl⟩

theorem stops_of_quiet {c : Call} (hover : Over keys ∅ c) {source : Source}
    (hc : c = .putStream key source) : source.stops = false := by
  cases hraises : source.raises with
  | false => rw [Source.stops, hraises, Bool.false_and]
  | true => exact (hover.2 key source hc hraises).elim

theorem twin_step (hsafe : ∀ key ∈ keys, SafeKey key) (hsep : Separate start keys)
    (h : Twin s start keys stores) {c : Call} (hover : Over keys ∅ c) :
    Agree (LocalStorage.call stores.root c).2 (S3Storage.call s stores.bucket c).2 ∧
      Twin s start keys ⟨(LocalStorage.call stores.root c).1, (S3Storage.call s stores.bucket c).1⟩ := by
  have hkey := hover.1
  have hs := hsafe c.key hkey
  cases c with
  | putBytes key data =>
      obtain ⟨n, hn, htwin⟩ := h.write hsep hkey data
      simp only [Call.key] at hn hs htwin
      simp only [LocalStorage.call, LocalStorage.putBytes, S3Storage.call, S3Storage.putBytes,
        if_pos hs, hn]
      exact ⟨.refl _, htwin⟩
  | putStream key source =>
      obtain ⟨n, hn, htwin⟩ := h.write hsep hkey source.data
      simp only [Call.key] at hn hs htwin
      simp only [LocalStorage.call, LocalStorage.putStream, S3Storage.call, S3Storage.putStream,
        S3Storage.putBytes, if_pos hs, hn, stops_of_quiet hover rfl, Bool.false_eq_true, if_false]
      exact ⟨.refl _, htwin⟩
  | delete key =>
      obtain ⟨r, hr, htwin⟩ := h.unlink hsep hkey
      simp only [Call.key] at hr hs htwin
      simp only [LocalStorage.call, LocalStorage.delete, S3Storage.call, S3Storage.delete,
        if_pos hs, hr]
      exact ⟨.refl _, htwin⟩
  | getBytes key =>
      simp only [LocalStorage.call, LocalStorage.getBytes, S3Storage.call, S3Storage.getBytes]
      rw [← h.same key hkey]
      exact ⟨.refl _, h⟩
  | openStream key =>
      simp only [LocalStorage.call, LocalStorage.openStream, S3Storage.call, S3Storage.openStream]
      rw [← h.same key hkey]
      exact ⟨.refl _, h⟩
  | existsKey key =>
      simp only [LocalStorage.call, LocalStorage.existsKey, S3Storage.call, S3Storage.existsKey]
      rw [← h.same key hkey]
      exact ⟨.refl _, h⟩
  | size key =>
      simp only [LocalStorage.call, LocalStorage.size, S3Storage.call, S3Storage.size]
      rw [← h.same key hkey]
      exact ⟨.refl _, h⟩

theorem twin_start (hfresh : Fresh start) : Twin s start keys ⟨start, fun _ => none⟩ := by
  have hfile (p : List Str) : fileAt p start = none := by
    obtain rfl | rfl := hfresh
    · exact fileAt_none p
    · exact fileAt_empty p
  refine ⟨fun key _ => hfile _, fun p data hp => ?_, fun p hp => ?_⟩
  · cases (hfile p).symm.trans hp
  · obtain rfl | rfl := hfresh
    · cases (isDirectory_none p).symm.trans hp
    · exact .inl ⟨isDirectory_empty hp, rfl⟩

theorem agrees_of_twin (hsafe : ∀ key ∈ keys, SafeKey key) (hsep : Separate start keys)
    (h : Twin s start keys stores) {calls : List Call} (hover : ∀ c ∈ calls, Over keys ∅ c) :
    Agrees s stores calls := by
  induction calls generalizing stores with
  | nil => trivial
  | cons c calls ih =>
      rw [List.forall_mem_cons] at hover
      obtain ⟨hagree, htwin⟩ := twin_step hsafe hsep h hover.1
      refine ⟨hagree, fun stores' hstep => ?_⟩
      cases hstep
      exact ih htwin hover.2

section Failures

variable (hall : ∀ calls, (∀ c ∈ calls, Over keys raising c) → Agrees s ⟨start, fun _ => none⟩ calls)
  (hsafe : ∀ key ∈ keys, SafeKey key)

theorem over_put (hkey : key ∈ keys) (data : Bytes) : Over keys raising (.putBytes key data) :=
  ⟨hkey, fun key source hc => by cases hc⟩

theorem over_exists (hkey : key ∈ keys) : Over keys raising (.existsKey key) :=
  ⟨hkey, fun key source hc => by cases hc⟩

include hall hsafe

theorem write_of_agrees (hkey : key ∈ keys) (data : Bytes) :
    ∃ n, write (parts key) data start = .ok n := by
  have hagrees := (hall [.putBytes key data] (by simpa using over_put hkey data)).1
  cases hwrite : write (parts key) data start with
  | ok n => exact ⟨n, rfl⟩
  | error e =>
      have hvalue := (hagrees.1 .nothing).mpr (by
        simp only [S3Storage.call, S3Storage.putBytes, if_pos (hsafe key hkey)])
      simp only [LocalStorage.call, LocalStorage.putBytes, if_pos (hsafe key hkey), hwrite] at hvalue
      cases hvalue

theorem quiet_of_agrees (hraising : raising ⊆ keys) : raising = ∅ := by
  refine Set.eq_empty_of_forall_notMem fun key hkey => ?_
  have hmem := hraising hkey
  have hs := hsafe key hmem
  obtain ⟨n, hn⟩ := write_of_agrees hall hsafe hmem []
  have hover : Over keys raising (.putStream key ⟨[], true⟩) := by
    refine ⟨hmem, fun key' source hc _ => ?_⟩
    cases hc
    exact hkey
  have hagrees := hall [.putStream key ⟨[], true⟩, .existsKey key] (by
    simpa using ⟨hover, over_exists hmem⟩)
  have hvalue := ((hagrees.2 _ rfl).1.1 (.found true)).mp (by
    simp only [LocalStorage.call, LocalStorage.putStream, LocalStorage.existsKey, if_pos hs,
      Source.data, Uploads.toCome, List.takeWhile_nil, List.flatten_nil, hn]
    rw [fileAt_write hn, if_pos rfl]
    rfl)
  simp [S3Storage.call, S3Storage.putStream, S3Storage.existsKey, hs, Source.stops] at hvalue

theorem inj_of_agrees : Set.InjOn parts keys := by
  intro key hkey key' hkey' hparts
  by_contra hne
  obtain ⟨n, hn⟩ := write_of_agrees hall hsafe hkey []
  have hagrees := hall [.putBytes key [], .existsKey key'] (by
    simpa using ⟨over_put hkey [], over_exists hkey'⟩)
  have hvalue := ((hagrees.2 _ rfl).1.1 (.found true)).mp (by
    simp only [LocalStorage.call, LocalStorage.putBytes, LocalStorage.existsKey,
      if_pos (hsafe key hkey), if_pos (hsafe key' hkey'), hn]
    rw [fileAt_write hn, if_pos hparts.symm]
    rfl)
  have hobj : S3Storage.obj s key' ≠ S3Storage.obj s key :=
    fun hobj => hne ((S3Storage.obj_inj s).mp hobj).symm
  simp [S3Storage.call, S3Storage.putBytes, S3Storage.existsKey, hsafe key hkey,
    hsafe key' hkey', hobj] at hvalue

theorem apart_of_agrees : ∀ key ∈ keys, ∀ key' ∈ keys, ¬ Above (parts key) (parts key') := by
  intro key hkey key' hkey' habove
  obtain ⟨n, hn⟩ := write_of_agrees hall hsafe hkey' []
  have hdir := (isDirectory_write hn (parts key)).mpr (.inr habove)
  have hagrees := hall [.putBytes key' [], .putBytes key []] (by
    simpa using ⟨over_put hkey' [], over_put hkey []⟩)
  have hvalue := ((hagrees.2 _ rfl).1.1 .nothing).mpr (by
    simp only [S3Storage.call, S3Storage.putBytes, if_pos (hsafe key hkey)])
  simp only [LocalStorage.call, LocalStorage.putBytes, if_pos (hsafe key hkey),
    if_pos (hsafe key' hkey'), hn, write_directory [] hdir] at hvalue
  cases hvalue

theorem rooted_of_agrees (hfresh : Fresh start) :
    start.isSome = true → ∀ key ∈ keys, parts key ≠ [] := by
  intro hsome key hkey hnil
  obtain ⟨n, hn⟩ := write_of_agrees hall hsafe hkey []
  obtain rfl | rfl := hfresh
  · cases hsome
  · rw [hnil] at hn
    cases hn

end Failures

/-- On some keys the two backends agree on all sequences of calls if and only if
no stream raises and the keys have paths apart from one another. -/
theorem agrees_iff_separate (s : Str) (hfresh : Fresh start) (hsafe : ∀ key ∈ keys, SafeKey key)
    (hraising : raising ⊆ keys) :
    (∀ calls, (∀ c ∈ calls, Over keys raising c) → Agrees s ⟨start, fun _ => none⟩ calls) ↔
      raising = ∅ ∧ Separate start keys := by
  constructor
  · intro hall
    exact ⟨quiet_of_agrees hall hsafe hraising, inj_of_agrees hall hsafe,
      apart_of_agrees hall hsafe, rooted_of_agrees hall hsafe hfresh⟩
  · rintro ⟨rfl, hsep⟩ calls hover
    exact agrees_of_twin hsafe hsep (twin_start hfresh) hover

theorem separate_durableKeys (root : LocalStorage.Root) : Separate root durableKeys := by
  refine ⟨?_, ?_, ?_⟩
  · rintro _ ⟨c, n, hc, hn, rfl⟩ _ ⟨c', n', hc', hn', rfl⟩ hparts
    rw [parts_durableKey hc hn, parts_durableKey hc' hn'] at hparts
    cases hparts
    rfl
  · rintro _ ⟨c, n, hc, hn, rfl⟩ _ ⟨c', n', hc', hn', rfl⟩ ⟨hpre, hne⟩
    rw [parts_durableKey hc hn, parts_durableKey hc' hn'] at hpre hne
    exact hne (hpre.eq_of_length rfl)
  · rintro - _ ⟨c, n, hc, hn, rfl⟩
    rw [parts_durableKey hc hn]
    exact List.cons_ne_nil c [n]

theorem plain_storedName (hex : Hex8) (name : Str) : Plain (storedName hex (safeFilename name)) := by
  have hlen : 9 ≤ (storedName hex (safeFilename name)).length := by
    simp only [storedName, List.length_append, hex.length_eq]
    exact Nat.le_add_right _ _
  refine ⟨?_, slash_not_mem_storedName hex name, ?_, ?_⟩
  · exact List.ne_nil_of_length_pos (Nat.lt_of_lt_of_le (by decide) hlen)
  · intro heq
    rw [heq] at hlen
    exact absurd hlen (by decide)
  · intro heq
    rw [heq] at hlen
    exact absurd hlen (by decide)

theorem key_mem_durableKeys (u : Uploads.Upload) (h : Plain u.conversation) :
    u.key ∈ durableKeys :=
  ⟨u.conversation, u.storedName, h, plain_storedName u.hex _, rfl⟩

/-- What the program itself keeps in the store comes out the same on both backends. -/
theorem agrees_durableKeys (s : Str) (hfresh : Fresh start) {calls : List Call}
    (hover : ∀ c ∈ calls, Over durableKeys ∅ c) : Agrees s ⟨start, fun _ => none⟩ calls :=
  agrees_of_twin safeKey_durableKeys (separate_durableKeys start) (twin_start hfresh) hover

theorem agrees_uploads (s : Str) (hfresh : Fresh start) {calls : List Call}
    (hover : ∀ c ∈ calls, Over {key | ∃ u : Uploads.Upload, Plain u.conversation ∧ u.key = key} ∅ c) :
    Agrees s ⟨start, fun _ => none⟩ calls := by
  refine agrees_durableKeys s hfresh fun c hc => ⟨?_, (hover c hc).2⟩
  obtain ⟨⟨u, hplain, hkey⟩, -⟩ := hover c hc
  exact hkey ▸ key_mem_durableKeys u hplain

def storedAndDeleted : List Call :=
  [.putStream "cnv_1/a.txt" ⟨[[104], [105]], false⟩, .getBytes "cnv_1/a.txt",
    .delete "cnv_1/a.txt", .getBytes "cnv_1/a.txt"]

theorem agrees_iff_separate_storedAndDeleted :
    Agrees "paw" ⟨none, fun _ => none⟩ storedAndDeleted := by
  have hkey : str "cnv_1/a.txt" ∈ durableKeys :=
    ⟨"cnv_1", "a.txt", by decide, by decide, by decide⟩
  refine (agrees_iff_separate "paw" (.inl rfl) safeKey_durableKeys (Set.empty_subset _)).mpr
    ⟨rfl, separate_durableKeys none⟩ storedAndDeleted ?_
  simp only [storedAndDeleted, List.forall_mem_cons, List.not_mem_nil, false_implies, implies_true,
    and_true]
  refine ⟨⟨hkey, ?_⟩, ⟨hkey, ?_⟩, ⟨hkey, ?_⟩, ⟨hkey, ?_⟩⟩ <;> intro key source hc hraises <;> cases hc
  cases hraises

/-- A stream that raises midway leaves a file in the tree, and nothing in the bucket. -/
theorem not_agrees_raising :
    ¬ ∀ (s : Str) (start : LocalStorage.Root) (calls : List Call), Fresh start →
      (∀ c ∈ calls, SafeKey c.key) → Agrees s ⟨start, fun _ => none⟩ calls := by
  intro h
  have hagrees := h "paw" none [.putStream "cnv_1/a.txt" ⟨[[104]], true⟩, .existsKey "cnv_1/a.txt"]
    (.inl rfl) (by decide)
  exact absurd (((hagrees.2 _ rfl).1.1 (.found true)).mp rfl) (by decide)

end AgentWeb.StorageContract
