import AgentWeb.UploadFile

namespace AgentWeb.QuotaRace

open PyText UploadChecks Uploads UploadFile Interleaving Transitions

/-- An upload that fits by itself. Its id is new. -/
structure Fits (settings : Settings) (t : Tiers) (u : Upload) : Prop where
  known : ∃ c ∈ t.conversations, c.id = u.conversation
  newId : ∀ r ∈ t.rows, r.id ≠ u.fileId
  file : (u.size : Int) ≤ settings.maxUploadBytes
  quota : settings.maxUserStorageBytes ≠ 0 →
    (userStorageUsed t.rows u.user : Int) + u.size ≤ settings.maxUserStorageBytes

/-- Two uploads of one user, for which there is a store and `uuid4` has given
different values. -/
structure Pair (settings : Settings) (t : Tiers) (u v : Upload) : Prop where
  left : Fits settings t u
  right : Fits settings t v
  store : HasStore settings
  user : u.user = v.user
  hex : u.hex ≠ v.hex
  fileId : u.fileId ≠ v.fileId

theorem Pair.symm {settings : Settings} {t : Tiers} {u v : Upload} (h : Pair settings t u v) :
    Pair settings t v u :=
  ⟨h.right, h.left, h.store, h.user.symm, h.hex.symm, h.fileId.symm⟩

theorem storedName_ne {u v : Upload} (h : u.hex ≠ v.hex) : u.storedName ≠ v.storedName := by
  intro heq
  simp only [Upload.storedName, UploadChecks.storedName, List.append_assoc] at heq
  have hdigits := (List.append_inj heq (u.hex.length_eq.trans v.hex.length_eq.symm)).1
  exact h (Hex8.ext hdigits)

theorem Pair.dest_ne {settings : Settings} {t : Tiers} {u v : Upload} (h : Pair settings t u v) :
    v.dest settings ≠ u.dest settings :=
  fun heq => storedName_ne h.hex (congrArg Prod.snd heq).symm

theorem Pair.key_ne {settings : Settings} {t : Tiers} {u v : Upload} (h : Pair settings t u v) :
    v.key ≠ u.key := by
  intro heq
  have hslash (w : Upload) : 47 ∉ w.storedName := slash_not_mem_storedName w.hex _
  exact storedName_ne h.hex (durableKey_inj (hslash v) (hslash u) heq).2.symm

def present : Thread → List ConversationFile
  | .checking row => [row]
  | .removing row _ _ => [row]
  | .done (.stored row) => [row]
  | _ => []

/-- Where the two calls have come to, from the tiers `t₀`. -/
structure Race (settings : Settings) (t₀ : Tiers) (u v : Upload) (t : Tiers) (a b : Thread) :
    Prop where
  rows : t.rows.Perm (t₀.rows ++ (present a ++ present b))
  conversations : t.conversations = t₀.conversations
  left : Own settings u (t.files (u.dest settings)) (t.blobs u.key) a
  right : Own settings v (t.files (v.dest settings)) (t.blobs v.key) b

def Won : Thread → Prop
  | .checking _ => True
  | .done (.stored _) => True
  | _ => False

/-- A call that is or may be turned away has the other one ahead of it, or the
type of its content is not allowed. -/
def Behind (settings : Settings) (t₀ : Tiers) (u : Upload) : Thread → Thread → Prop
  | .opening _ used, b => used ≤ userStorageUsed t₀.rows u.user ∨ Won b
  | .reading _ used _ _ _, b => used ≤ userStorageUsed t₀.rows u.user ∨ Won b
  | .removing _ _ _, b => Won b
  | .done (.raised _), b => Won b ∨ ¬ Allowed settings u
  | _, _ => True

variable {settings : Settings} {t₀ t t' : Tiers} {u v : Upload} {a a' b : Thread}

theorem Race.symm (h : Race settings t₀ u v t a b) : Race settings t₀ v u t b a :=
  ⟨h.rows.trans (List.perm_append_comm.append_left t₀.rows), h.conversations, h.right, h.left⟩

theorem present_row {file blob : Option Bytes} (h : Own settings u file blob a) :
    ∀ row ∈ present a, row = u.row settings u.size := by
  cases a with
  | checking row => exact List.forall_mem_singleton.mpr h.1
  | removing row left reply => exact List.forall_mem_singleton.mpr h.1
  | done reply =>
      cases reply with
      | stored row => exact List.forall_mem_singleton.mpr h.1
      | deleted => exact h.elim
      | raised e => exact fun row hmem => absurd hmem List.not_mem_nil
  | called | opening | reading | persisting | copying | committing | lookingUp =>
      exact fun row hmem => absurd hmem List.not_mem_nil

theorem userStorageUsed_perm {rows rows' : List ConversationFile} (h : rows.Perm rows') (user : Str) :
    userStorageUsed rows user = userStorageUsed rows' user :=
  ((h.filter _).map _).sum_nat

theorem Race.used (h : Race settings t₀ u v t a b) (user : Str) :
    userStorageUsed t.rows user = userStorageUsed t₀.rows user +
      (userStorageUsed (present a) user + userStorageUsed (present b) user) := by
  rw [userStorageUsed_perm h.rows, userStorageUsed_append, userStorageUsed_append]

theorem used_present {file blob : Option Bytes} (h : Own settings u file blob a) :
    userStorageUsed (present a) u.user = if present a = [] then 0 else u.size := by
  have hsingle : userStorageUsed [u.row settings u.size] u.user = u.size := by
    rw [userStorageUsed_row, if_pos rfl]
  have hrow := present_row h
  cases a with
  | checking row =>
      rw [show row = _ from hrow row List.mem_cons_self]
      exact hsingle
  | removing row left reply =>
      rw [show row = _ from hrow row List.mem_cons_self]
      exact hsingle
  | done reply =>
      cases reply with
      | stored row =>
          rw [show row = _ from hrow row List.mem_cons_self]
          exact hsingle
      | deleted => rfl
      | raised e => rfl
  | called | opening | reading | persisting | copying | committing | lookingUp => rfl

theorem commit_new (hpair : Pair settings t₀ u v) (h : Race settings t₀ u v t a b)
    (ha : present a = []) : ∀ r ∈ t.rows, r.id ≠ u.fileId := by
  intro r hr
  rw [h.rows.mem_iff, ha, List.nil_append, List.mem_append] at hr
  rcases hr with hr | hr
  · exact hpair.left.newId r hr
  · rw [present_row h.right r hr]
    exact hpair.fileId.symm

theorem filter_present {file blob : Option Bytes} (h : Own settings v file blob b)
    (hid : u.fileId ≠ v.fileId) : (present b).filter (·.id ≠ u.fileId) = present b := by
  rw [List.filter_eq_self]
  intro r hr
  rw [present_row h r hr, decide_eq_true_eq]
  exact hid.symm

theorem Race.advance (hpair : Pair settings t₀ u v) (h : Race settings t₀ u v t a b)
    (hmove : Move settings t .ok a t' a') : Race settings t₀ u v t' a' b := by
  have hframe := frame_of_move hmove h.left
  refine ⟨?_, hframe.conversations.trans h.conversations, own_of_move hmove h.left, ?_⟩
  · have hcommit (row : ConversationFile) (hrows : t.rows.Perm (t₀.rows ++ present b)) :
        (t.rows ++ [row]).Perm (t₀.rows ++ ([row] ++ present b)) :=
      (hrows.append_right _).trans (by
        rw [List.append_assoc]
        exact List.perm_append_comm.append_left t₀.rows)
    cases hmove with
    | @copiesOn w size copy copy' hnext =>
        obtain ⟨blobs, hcopy, -⟩ := copyStep_blobs settings.backend t (w.dest settings) w.key copy
        rw [hcopy]
        exact h.rows
    | @copied w size copy hnext =>
        obtain ⟨blobs, hcopy, -⟩ := copyStep_blobs settings.backend t (w.dest settings) w.key copy
        rw [hcopy]
        exact h.rows
    | commits hnew hquota => exact hcommit _ h.rows
    | stores hnew hquota => exact hcommit _ h.rows
    | removesRow row reply =>
        obtain ⟨rfl, rfl, -⟩ := h.left
        have hfilter := h.rows.filter (·.id ≠ u.fileId)
        rw [List.filter_append, List.filter_append, filter_present h.right hpair.fileId,
          List.filter_eq_self.mpr fun r hr => decide_eq_true (hpair.left.newId r hr)] at hfilter
        have hown : (present (.removing (u.row settings u.size) .row quotaExceeded)).filter
            (·.id ≠ u.fileId) = [] := by
          simp [present, Upload.row]
        rw [hown] at hfilter
        exact hfilter
    | misses hnone => exact h.left.elim
    | unreached hstore => exact h.left.elim
    | finds hrow => exact h.left.elim
    | begins | opens | ends | refuses | receives | noStore | persists | notPersisted | clashes
    | rollsBack | passes | removesBlob | removesFile => exact h.rows
  · rw [hframe.files _ hpair.dest_ne, hframe.blobs _ hpair.key_ne]
    exact h.right

def Over (settings : Settings) (t : Tiers) : Thread → Prop
  | .checking row => settings.maxUserStorageBytes < userStorageUsed t.rows row.userId
  | _ => False

def RollsBack : Thread → Prop
  | .removing _ _ _ => True
  | _ => False

instance (t : Tiers) : (th : Thread) → Decidable (Over settings t th)
  | .checking _ => inferInstanceAs (Decidable (_ < _))
  | .called _ | .opening _ _ | .reading _ _ _ _ _ | .persisting _ _ | .copying _ _ _
  | .committing _ _ | .lookingUp _ _ | .removing _ _ _ | .done _ => .isFalse id

instance : (th : Thread) → Decidable (RollsBack th)
  | .removing _ _ _ => .isTrue trivial
  | .called _ | .opening _ _ | .reading _ _ _ _ _ | .persisting _ _ | .copying _ _ _
  | .committing _ _ | .lookingUp _ _ | .checking _ | .done _ => .isFalse id

theorem Behind.mono {w : Upload} (h : Behind settings t₀ w b a) (hwon : Won a → Won a') :
    Behind settings t₀ w b a' := by
  cases b with
  | opening w used => exact h.imp_right hwon
  | reading w used size first body => exact h.imp_right hwon
  | removing row left reply => exact hwon h
  | done reply =>
      cases reply with
      | raised e => exact h.imp_left hwon
      | stored row => trivial
      | deleted => trivial
  | called | persisting | copying | committing | checking | lookingUp => trivial

theorem won_of_present (h : present a ≠ []) : Won a ∨ RollsBack a := by
  cases a with
  | checking row => exact .inl trivial
  | removing row left reply => exact .inr trivial
  | done reply =>
      cases reply with
      | stored row => exact .inl trivial
      | deleted => exact absurd rfl h
      | raised e => exact absurd rfl h
  | called | opening | reading | persisting | copying | committing | lookingUp => exact absurd rfl h

theorem Behind.won_of_rollsBack {w : Upload} (h : Behind settings t₀ w b a) (hb : RollsBack b) :
    Won a := by
  cases b with
  | removing row left reply => exact h
  | called | opening | reading | persisting | copying | committing | lookingUp | checking | done =>
      exact hb.elim

theorem Race.present_of_used (h : Race settings t₀ u v t a b)
    (hused : userStorageUsed t₀.rows u.user +
      (if present a = [] then 0 else u.size) < userStorageUsed t.rows u.user) : present b ≠ [] := by
  intro hb
  rw [h.used, used_present h.left, hb] at hused
  exact absurd hused (by simp [userStorageUsed])

theorem chunk_fits {file blob : Option Bytes} {w : Upload} {used size : Nat} {first : Bool}
    {chunk : Bytes} {body : List Bytes} (hfits : Fits settings t₀ u) (hchunk : chunk ≠ [])
    (h : Own settings u file blob (.reading w used size first (chunk :: body))) :
    (Allowed settings u → first = true → sniffMatches chunk settings.uploadAllowedTypes = true) ∧
      size + chunk.length ≤ u.size ∧ (size + chunk.length : Int) ≤ settings.maxUploadBytes := by
  obtain ⟨-, ⟨written, -, hsize, hcontent⟩, hrest⟩ := h
  have hle : size + chunk.length ≤ u.size := by
    rw [Upload.size, ← hcontent, toCome_cons hchunk, List.length_append, List.length_append, hsize]
    omega
  have hfile := hfits.file
  refine ⟨fun hallowed hfirst => hallowed chunk ?_, hle, by omega⟩
  rw [if_pos hfirst] at hrest
  rw [← hrest]
  simp [hchunk]

/-- A call goes on. If its upload is or may be turned away, the other one is
ahead of it and stays there, unless both are rolled back. -/
theorem Race.behind (hpair : Pair settings t₀ u v) (h : Race settings t₀ u v t a b)
    (hbehind : Behind settings t₀ u a b) (hother : Behind settings t₀ v b a)
    (hapart : Over settings t a → ¬ RollsBack b) (hmove : Move settings t .ok a t' a') :
    Behind settings t₀ u a' b ∧ Behind settings t₀ v b a' := by
  cases hmove with
  | begins w =>
      obtain rfl : w = u := h.left
      refine ⟨?_, hother.mono id⟩
      by_cases hb : present b = []
      · refine .inl ?_
        split
        · rw [h.used, used_present h.left, hb]
          exact Nat.le_refl _
        · exact Nat.zero_le _
      · rcases won_of_present hb with hwon | hrolls
        · exact .inr hwon
        · exact (hother.won_of_rollsBack hrolls).elim
  | opens w used => exact ⟨hbehind, hother.mono id⟩
  | ends hend => exact ⟨trivial, hother.mono id⟩
  | refuses e hchunk why =>
      obtain ⟨hsniffed, hfits⟩ := chunk_fits hpair.left hchunk h.left
      refine ⟨?_, hother.mono id⟩
      obtain hfirst | hfile | hquota := why
      · exact .inr fun hallowed => hfirst.2 (hsniffed hallowed hfirst.1)
      · exact absurd hfile (by omega)
      · refine .inl (hbehind.resolve_left fun hused => ?_)
        have hall := hpair.left.quota hquota.1
        omega
  | receives hchunk fits => exact ⟨hbehind, hother.mono id⟩
  | noStore hstore => exact absurd hpair.store (not_hasStore hstore)
  | persists hfile => exact ⟨trivial, hother.mono id⟩
  | notPersisted why =>
      obtain ⟨rfl, -, hfile, -⟩ := h.left
      exact absurd ⟨rfl, by rw [hfile]; rfl⟩ why
  | copiesOn hnext => exact ⟨trivial, hother.mono id⟩
  | copied hnext => exact ⟨trivial, hother.mono id⟩
  | clashes why =>
      obtain ⟨rfl, -⟩ := h.left
      obtain ⟨c, hc, hid⟩ := hpair.left.known
      obtain ⟨r, hr, heq⟩ | hall := why
      · exact absurd heq (commit_new hpair h rfl r hr)
      · exact absurd hid (hall c (h.conversations ▸ hc))
  | commits hnew hquota => exact ⟨trivial, hother.mono fun _ => trivial⟩
  | stores hnew hquota => exact ⟨trivial, hother.mono fun _ => trivial⟩
  | rollsBack hover =>
      obtain ⟨rfl, -⟩ := h.left
      have hfits := hpair.left.quota h.left.2.2.2.2
      have hb : present b ≠ [] := by
        refine h.present_of_used ?_
        have huser : (u.row settings u.size).userId = u.user := rfl
        rw [huser] at hover
        rw [if_neg (by simp [present])]
        omega
      have hwon : Won b := (won_of_present hb).resolve_right (hapart hover)
      refine ⟨hwon, ?_⟩
      cases b with
      | checking row => trivial
      | done reply =>
          cases reply with
          | stored row => trivial
          | deleted => exact hwon.elim
          | raised e => exact hwon.elim
      | called | opening | reading | persisting | copying | committing | lookingUp | removing =>
          exact hwon.elim
  | passes hfits => exact ⟨trivial, hother.mono id⟩
  | misses hnone => exact h.left.elim
  | unreached hstore => exact h.left.elim
  | finds hrow => exact h.left.elim
  | removesBlob row reply => exact ⟨hbehind, hother.mono id⟩
  | removesFile row reply => exact ⟨hbehind, hother.mono id⟩
  | removesRow row reply =>
      obtain ⟨rfl, rfl, -⟩ := h.left
      exact ⟨.inl hbehind, hother.mono id⟩

/-- Call `k` goes on, and all operations succeed. -/
def raceStep (settings : Settings) (s : System) (k : Nat) : Option System :=
  step settings s (.advance k .ok)

/-- No call re-reads a total over the quota while the other one is rolling back. -/
def Apart (settings : Settings) (s : System) (k : Nat) : Prop :=
  ∀ th ∈ s.threads[k]?, Over settings s.shared th → ∀ other ∈ s.threads, ¬ RollsBack other

instance (s : System) (k : Nat) : Decidable (Apart settings s k) :=
  inferInstanceAs (Decidable (∀ th ∈ _, _ → ∀ other ∈ _, _))

/-- The two calls have come to `a` and `b`. -/
structure At (settings : Settings) (t₀ : Tiers) (u v : Upload) (s : System) (a b : Thread) : Prop where
  threads : s.threads = [a, b]
  race : Race settings t₀ u v s.shared a b

theorem At.step {s s' : System} {k : Nat} (hpair : Pair settings t₀ u v)
    (h : At settings t₀ u v s a b) (hstep : raceStep settings s k = some s') :
    (k = 0 ∧ ∃ a', Move settings s.shared .ok a s'.shared a' ∧ At settings t₀ u v s' a' b) ∨
      k = 1 ∧ ∃ b', Move settings s.shared .ok b s'.shared b' ∧ At settings t₀ u v s' a b' := by
  obtain ⟨th, t', th', hk, hadvance, rfl⟩ := move_eq_some.mp hstep
  rw [h.threads] at hk ⊢
  match k with
  | 0 =>
      cases hk
      have hmove := move_of_advance hadvance
      exact .inl ⟨rfl, th', hmove, rfl, h.race.advance hpair hmove⟩
  | 1 =>
      cases hk
      have hmove := move_of_advance hadvance
      exact .inr ⟨rfl, th', hmove, rfl, (h.race.symm.advance hpair.symm hmove).symm⟩
  | k + 2 => cases hk

def Fallen : Thread → Prop
  | .removing _ _ _ => True
  | .done (.raised _) => True
  | _ => False

theorem Fallen.move {file blob : Option Bytes} (hown : Own settings u file blob a)
    (h : Fallen a) (hmove : Move settings t .ok a t' a') : Fallen a' := by
  cases hmove with
  | removesBlob row reply => trivial
  | removesFile row reply => trivial
  | removesRow row reply =>
      obtain ⟨-, rfl, -⟩ := hown
      trivial
  | begins | opens | ends | refuses | receives | noStore | persists | notPersisted | copiesOn
  | copied | clashes | commits | stores | rollsBack | passes | misses | unreached | finds =>
      exact h.elim

theorem fallen_of_over (h : Over settings t a) (hmove : Move settings t .ok a t' a') : Fallen a' := by
  cases hmove with
  | rollsBack hover => trivial
  | passes hfits => exact absurd h hfits
  | begins | opens | ends | refuses | receives | noStore | persists | notPersisted | copiesOn
  | copied | clashes | commits | stores | misses | unreached | finds | removesBlob | removesFile
  | removesRow => exact h.elim

theorem fallen_of_rollsBack (h : RollsBack a) : Fallen a := by
  cases a with
  | removing row left reply => trivial
  | called | opening | reading | persisting | copying | committing | lookingUp | checking | done =>
      exact h.elim

theorem not_rollsBack_of_over (h : Over settings t a) : ¬ RollsBack a := by
  cases a with
  | checking row => exact id
  | called | opening | reading | persisting | copying | committing | lookingUp | removing | done =>
      exact h.elim

def Lost (settings : Settings) (t₀ : Tiers) (u v : Upload) (s : System) : Prop :=
  ∃ a b, At settings t₀ u v s a b ∧ Fallen a ∧ Fallen b

def OnTrack (settings : Settings) (t₀ : Tiers) (u v : Upload) (s : System) : Prop :=
  ∃ a b, At settings t₀ u v s a b ∧ Behind settings t₀ u a b ∧ Behind settings t₀ v b a

theorem lost_step {s s' : System} {k : Nat} (hpair : Pair settings t₀ u v)
    (h : Lost settings t₀ u v s) (hstep : raceStep settings s k = some s') :
    Lost settings t₀ u v s' := by
  obtain ⟨a, b, hat, ha, hb⟩ := h
  rcases hat.step hpair hstep with ⟨-, a', hmove, hat'⟩ | ⟨-, b', hmove, hat'⟩
  · exact ⟨a', b, hat', ha.move hat.race.left hmove, hb⟩
  · exact ⟨a, b', hat', ha, hb.move hat.race.right hmove⟩

theorem onTrack_step {s s' : System} {k : Nat} (hpair : Pair settings t₀ u v)
    (h : OnTrack settings t₀ u v s) (hapart : Apart settings s k)
    (hstep : raceStep settings s k = some s') : OnTrack settings t₀ u v s' := by
  obtain ⟨a, b, hat, ha, hb⟩ := h
  rcases hat.step hpair hstep with ⟨rfl, a', hmove, hat'⟩ | ⟨rfl, b', hmove, hat'⟩
  · have hothers := hapart a (by rw [hat.threads]; rfl)
    obtain ⟨ha', hb'⟩ := hat.race.behind hpair ha hb
      (fun hover => hothers hover b (by rw [hat.threads]; simp)) hmove
    exact ⟨a', b, hat', ha', hb'⟩
  · have hothers := hapart b (by rw [hat.threads]; rfl)
    obtain ⟨hb', ha'⟩ := hat.race.symm.behind hpair.symm hb ha
      (fun hover => hothers hover a (by rw [hat.threads]; simp)) hmove
    exact ⟨a, b', hat', ha', hb'⟩

theorem lost_of_not_apart {s s' : System} {k : Nat} (hpair : Pair settings t₀ u v)
    (hat : At settings t₀ u v s a b) (hapart : ¬ Apart settings s k)
    (hstep : raceStep settings s k = some s') : Lost settings t₀ u v s' := by
  simp only [Apart, not_forall, not_not] at hapart
  obtain ⟨th, hth, hover, other, hother, hrolls⟩ := hapart
  rw [hat.threads] at hth hother
  simp only [List.mem_cons, List.not_mem_nil, or_false] at hother
  rcases hat.step hpair hstep with ⟨rfl, a', hmove, hat'⟩ | ⟨rfl, b', hmove, hat'⟩
  · cases hth
    rcases hother with rfl | rfl
    · exact absurd hrolls (not_rollsBack_of_over hover)
    · exact ⟨a', _, hat', fallen_of_over hover hmove, fallen_of_rollsBack hrolls⟩
  · cases hth
    rcases hother with rfl | rfl
    · exact ⟨_, b', hat', fallen_of_rollsBack hrolls, fallen_of_over hover hmove⟩
    · exact absurd hrolls (not_rollsBack_of_over hover)

theorem run_onTrack {s s' : System} {ks : List Nat} (hpair : Pair settings t₀ u v)
    (h : OnTrack settings t₀ u v s) (hrun : run (raceStep settings) s ks = some s') :
    if EachStep (raceStep settings) (Apart settings) s ks then OnTrack settings t₀ u v s'
    else Lost settings t₀ u v s' := by
  induction ks generalizing s with
  | nil =>
      cases hrun
      exact h
  | cons k ks ih =>
      obtain ⟨s₁, hstep, hrun⟩ := run_cons_eq_some.mp hrun
      have heach : EachStep (raceStep settings) (Apart settings) s (k :: ks) ↔
          Apart settings s k ∧ EachStep (raceStep settings) (Apart settings) s₁ ks := by
        simp [EachStep, hstep]
      by_cases hapart : Apart settings s k
      · have hrest := ih (onTrack_step hpair h hapart hstep) hrun
        simp only [heach, hapart, true_and]
        exact hrest
      · obtain ⟨a, b, hat, -⟩ := h
        rw [if_neg fun hall => hapart (heach.mp hall).1]
        exact run_invariant (I := Lost settings t₀ u v) (fun _ _ _ hs => lost_step hpair hs)
          (lost_of_not_apart hpair hat hapart hstep) hrun

/-- Call `k` has returned normally and its upload is in all three places. -/
structure Keeps (settings : Settings) (s : System) (k : Nat) (u : Upload) : Prop where
  returned : s.threads[k]? = some (.done (.stored (u.row settings u.size)))
  row : u.row settings u.size ∈ s.shared.rows
  file : s.shared.files (u.dest settings) = some u.content
  blob : s.shared.blobs u.key = some u.content

def Winner (settings : Settings) (u v : Upload) (s : System) : Prop :=
  Keeps settings s 0 u ∨ Keeps settings s 1 v

def Finished (s : System) : Prop := ∀ th ∈ s.threads, ∃ reply, th = .done reply

theorem At.keeps {s : System} (h : At settings t₀ u v s a b) {row : ConversationFile}
    (ha : a = .done (.stored row)) : Keeps settings s 0 u ∧ Allowed settings u := by
  obtain ⟨rfl, hfile, hblob, hallowed⟩ := ha ▸ h.race.left
  refine ⟨⟨by rw [h.threads, ha]; rfl, ?_, hfile, hblob⟩, hallowed⟩
  rw [h.race.rows.mem_iff, ha]
  simp [present]

theorem At.keeps_right {s : System} (h : At settings t₀ u v s a b) {row : ConversationFile}
    (hb : b = .done (.stored row)) : Keeps settings s 1 v ∧ Allowed settings v := by
  obtain ⟨rfl, hfile, hblob, hallowed⟩ := hb ▸ h.race.right
  refine ⟨⟨by rw [h.threads, hb]; rfl, ?_, hfile, hblob⟩, hallowed⟩
  rw [h.race.rows.mem_iff, hb]
  simp [present]

theorem At.kept {s : System} (h : At settings t₀ u v s a b) (hwinner : Winner settings u v s) :
    ¬ Fallen a ∧ Allowed settings u ∨ ¬ Fallen b ∧ Allowed settings v := by
  rcases hwinner with hkeeps | hkeeps
  · have hreturned := hkeeps.returned
    rw [h.threads] at hreturned
    have ha := Option.some.inj hreturned
    exact .inl ⟨ha ▸ id, (h.keeps ha).2⟩
  · have hreturned := hkeeps.returned
    rw [h.threads] at hreturned
    have hb := Option.some.inj hreturned
    exact .inr ⟨hb ▸ id, (h.keeps_right hb).2⟩

theorem not_winner_of_lost {s : System} (h : Lost settings t₀ u v s) : ¬ Winner settings u v s := by
  obtain ⟨a, b, hat, ha, hb⟩ := h
  intro hwinner
  rcases hat.kept hwinner with ⟨hkept, -⟩ | ⟨hkept, -⟩
  · exact hkept ha
  · exact hkept hb

theorem winner_of_onTrack {s : System} (h : OnTrack settings t₀ u v s) (hdone : Finished s) :
    Winner settings u v s ↔ Allowed settings u ∨ Allowed settings v := by
  obtain ⟨a, b, hat, ha, hb⟩ := h
  constructor
  · intro hwinner
    exact (hat.kept hwinner).imp And.right And.right
  · intro hallowed
    obtain ⟨reply, rfl⟩ := hdone a (by rw [hat.threads]; simp)
    obtain ⟨reply', rfl⟩ := hdone b (by rw [hat.threads]; simp)
    cases reply with
    | stored row => exact .inl (hat.keeps rfl).1
    | deleted => exact hat.race.left.elim
    | raised e =>
        cases reply' with
        | stored row => exact .inr (hat.keeps_right rfl).1
        | deleted => exact hat.race.right.elim
        | raised e' =>
            have hu := ha.resolve_left id
            have hv := hb.resolve_left id
            exact absurd hallowed (not_or.mpr ⟨hu, hv⟩)

theorem start_onTrack (settings : Settings) (t : Tiers) (u v : Upload) :
    OnTrack settings t u v ⟨t, [.called u, .called v]⟩ := by
  refine ⟨.called u, .called v, ⟨rfl, ?_, rfl, rfl, rfl⟩, trivial, trivial⟩
  simp [present]

theorem run_length_le {s s' : System} {ks : List Nat} (hpair : Pair settings t₀ u v)
    (hat : At settings t₀ u v s a b) (hrun : run (raceStep settings) s ks = some s') :
    ks.length ≤ rank u a + rank v b := by
  induction ks generalizing s a b with
  | nil => exact Nat.zero_le _
  | cons k ks ih =>
      obtain ⟨s₁, hstep, hrun⟩ := run_cons_eq_some.mp hrun
      rw [List.length_cons]
      rcases hat.step hpair hstep with ⟨-, a', hmove, hat'⟩ | ⟨-, b', hmove, hat'⟩
      · have hlt := rank_of_move hmove hat.race.left
        have hle := ih hat' hrun
        omega
      · have hlt := rank_of_move hmove hat.race.right
        have hle := ih hat' hrun
        omega

theorem raceStep_isSome {s : System} (hdone : ¬ Finished s) :
    ∃ k, (raceStep settings s k).isSome := by
  simp only [Finished, not_forall] at hdone
  obtain ⟨th, hmem, hth⟩ := hdone
  obtain ⟨k, hk⟩ := List.getElem?_of_mem hmem
  refine ⟨k, ?_⟩
  have hopen : ∀ reply, th ≠ .done reply := fun reply h => hth ⟨reply, h⟩
  have hmove := advance_isSome settings s.shared .ok hopen
  simp only [raceStep, step, Pool.move, hk, Option.bind_some, Option.isSome_map]
  exact hmove

/-- Every interleaving of the two calls ends, and then one of them has returned
normally and keeps its upload, exactly when one of the contents is of a type that
is allowed and no call has re-read a total over the quota while the other one was
rolling back. -/
theorem winner_iff {settings : Settings} {t : Tiers} {u v : Upload} (hpair : Pair settings t u v)
    {ks : List Nat} {s : System}
    (hrun : run (raceStep settings) ⟨t, [.called u, .called v]⟩ ks = some s) :
    ks.length ≤ steps u + steps v ∧
      (¬ Finished s → ∃ k, (raceStep settings s k).isSome) ∧
      (Finished s → (Winner settings u v s ↔ (Allowed settings u ∨ Allowed settings v) ∧
        EachStep (raceStep settings) (Apart settings) ⟨t, [.called u, .called v]⟩ ks)) := by
  have hstart := start_onTrack settings t u v
  refine ⟨?_, raceStep_isSome, fun hdone => ?_⟩
  · obtain ⟨a, b, hat, -⟩ := hstart
    cases hat.threads
    exact run_length_le hpair hat hrun
  · have htrack := run_onTrack hpair hstart hrun
    split at htrack
    next hapart => rw [winner_of_onTrack htrack hdone, and_iff_left hapart]
    next hapart => exact iff_of_false (not_winner_of_lost htrack) fun h => hapart h.2

theorem sixBytes_pair : Pair tenBytes oneConversation firstSix secondSix :=
  ⟨⟨by decide, by decide, by decide, by decide⟩, ⟨by decide, by decide, by decide, by decide⟩,
    by decide, by simp [firstSix, secondSix, sixBytes], by decide, by decide⟩

theorem finished_of_threads {s : System} {reply reply' : Reply}
    (h : s.threads = [.done reply, .done reply']) : Finished s := by
  intro th hth
  rw [h, List.mem_cons, List.mem_singleton] at hth
  rcases hth with rfl | rfl
  · exact ⟨reply, rfl⟩
  · exact ⟨reply', rfl⟩

def oneAfterTheOther : List Nat :=
  List.replicate 9 0 ++ List.replicate 10 1 ++ List.replicate 5 0 ++ [1]

theorem winner_iff_oneAfterTheOther :
    ∃ s, run (raceStep tenBytes) ⟨oneConversation, [.called firstSix, .called secondSix]⟩
        oneAfterTheOther = some s ∧ Winner tenBytes firstSix secondSix s := by
  obtain ⟨s, reply, reply', hrun, hthreads⟩ : ∃ s reply reply', run (raceStep tenBytes)
      ⟨oneConversation, [.called firstSix, .called secondSix]⟩ oneAfterTheOther = some s ∧
      s.threads = [.done reply, .done reply'] := ⟨_, _, _, rfl, rfl⟩
  have hwinner := (winner_iff sixBytes_pair hrun).2.2 (finished_of_threads hthreads)
  exact ⟨s, hrun, hwinner.mpr ⟨.inl (by decide), by decide⟩⟩

def bothRollBack : List Nat :=
  List.replicate 9 0 ++ List.replicate 10 1 ++ [0, 0, 1] ++ List.replicate 3 0 ++ List.replicate 3 1

theorem not_winner_bothRollBack :
    ¬ ∀ (settings : Settings) (t : Tiers) (u v : Upload), Pair settings t u v → Allowed settings u →
      Allowed settings v → ∀ (ks : List Nat) (s : System),
        run (raceStep settings) ⟨t, [.called u, .called v]⟩ ks = some s → Finished s →
          Winner settings u v s := by
  intro h
  obtain ⟨s, hrun, hthreads⟩ : ∃ s, run (raceStep tenBytes)
      ⟨oneConversation, [.called firstSix, .called secondSix]⟩ bothRollBack = some s ∧
      s.threads = [.done quotaExceeded, .done quotaExceeded] := ⟨_, rfl, by decide⟩
  rcases h _ _ _ _ sixBytes_pair (by decide) (by decide) _ s hrun
      (finished_of_threads hthreads) with hkeeps | hkeeps
  · have hreturned := hkeeps.returned
    rw [hthreads] at hreturned
    cases hreturned
  · have hreturned := hkeeps.returned
    rw [hthreads] at hreturned
    cases hreturned

end AgentWeb.QuotaRace
