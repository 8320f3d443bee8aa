import AgentWeb.Uploads

namespace AgentWeb.Quota

open PyText UploadChecks Uploads Interleaving Transitions

def held : Thread → Option ConversationFile
  | .checking row => some row
  | .removing row _ reply => if reply = .deleted then none else some row
  | _ => none

def uploader : Thread → Option Str
  | .called u | .opening u _ | .reading u _ _ _ _ | .persisting u _ | .copying u _ _ | .committing u _ =>
      some u.user
  | .checking row => some row.userId
  | .removing row _ reply => if reply = .deleted then none else some row.userId
  | .lookingUp _ _ => none
  | .done _ => none

inductive Effect (settings : Settings) (rows : List ConversationFile) (th : Thread) :
    List ConversationFile → Thread → Prop
  | same {th'} (h : held th' = held th) : Effect settings rows th rows th'
  | commit {th'} (row) (before : held th = none) (h : held th' = some row) :
      Effect settings rows th (rows ++ [row]) th'
  | remove {th'} (row) (before : ∀ r, held th = some r → r = row) (h : held th' = none) :
      Effect settings rows th (rows.filter (·.id ≠ row.id)) th'
  | pass {th'} (row) (before : held th = some row) (h : held th' = none)
      (fits : (userStorageUsed rows row.userId : Int) ≤ settings.maxUserStorageBytes) :
      Effect settings rows th rows th'

variable {settings : Settings}

theorem effect_of_move (hquota : settings.maxUserStorageBytes ≠ 0) {t t' : Tiers} {answer : Answer}
    {th th' : Thread} (hmove : Move settings t answer th t' th') :
    Effect settings t.rows th t'.rows th' := by
  cases hmove with
  | @copiesOn u size copy copy' hnext =>
      obtain ⟨blobs, hcopy, -⟩ := copyStep_blobs settings.backend t (u.dest settings) u.key copy
      rw [hcopy]
      exact .same rfl
  | @copied u size copy hnext =>
      obtain ⟨blobs, hcopy, -⟩ := copyStep_blobs settings.backend t (u.dest settings) u.key copy
      rw [hcopy]
      exact .same rfl
  | commits hnew _ => exact .commit _ rfl rfl
  | stores hnew hfree => exact absurd hquota hfree
  | passes hfits => exact .pass _ rfl rfl (Int.not_lt.mp hfits)
  | removesBlob row reply => cases answer <;> exact .same rfl
  | removesFile row reply => cases answer <;> exact .same rfl
  | removesRow row reply =>
      refine .remove row (fun r hr => ?_) rfl
      simp only [held] at hr
      split at hr
      · cases hr
      · exact (Option.some.inj hr).symm
  | begins | opens | notOpened | ends | refuses | receives | notRead | noStore | persists
  | notPersisted | notCopied | clashes | rollsBack | misses | unreached | finds => exact .same rfl

def Confirmed (threads : List Thread) (user : Str) (r : ConversationFile) : Prop :=
  r.userId = user ∧ ∀ th ∈ threads, held th ≠ some r

instance (threads : List Thread) (user : Str) (r : ConversationFile) :
    Decidable (Confirmed threads user r) := inferInstanceAs (Decidable (_ ∧ _))

/-- The rows that no call holds keep to the quota. -/
def Within (settings : Settings) (user : Str) (s : System) : Prop :=
  (total (Confirmed s.threads user) s.shared.rows : Int) ≤ settings.maxUserStorageBytes

theorem Confirmed.of_set {threads : List Thread} {k : Nat} {th th' : Thread} {user : Str}
    {r : ConversationFile} (hk : threads[k]? = some th) (h : Confirmed (threads.set k th') user r)
    (hth : held th ≠ some r) : Confirmed threads user r := by
  refine ⟨h.1, fun a ha => ?_⟩
  obtain ⟨i, hi⟩ := List.getElem?_of_mem ha
  by_cases hik : i = k
  · subst hik
    cases hk.symm.trans hi
    exact hth
  · refine h.2 a (List.mem_of_getElem? (i := i) ?_)
    rw [List.getElem?_set_ne (Ne.symm hik), hi]

theorem Confirmed.set_self {threads : List Thread} {k : Nat} {th th' : Thread} {user : Str}
    {r : ConversationFile} (hk : threads[k]? = some th) (h : Confirmed (threads.set k th') user r) :
    held th' ≠ some r :=
  h.2 th' (mem_set_self hk th')

theorem Within.mono {user : Str} {s s' : System} (hs : Within settings user s)
    (hle : total (Confirmed s'.threads user) s'.shared.rows ≤
      total (Confirmed s.threads user) s.shared.rows) : Within settings user s' :=
  Int.le_trans (Int.ofNat_le.mpr hle) hs

theorem arrive_within {user : Str} {s : System} (hs : Within settings user s) (th : Thread) :
    Within settings user { s with threads := s.threads ++ [th] } :=
  hs.mono (total_mono fun _ _ hr =>
    ⟨hr.1, fun a ha => hr.2 a (List.mem_append_left _ ha)⟩)

theorem effect_within {user : Str} {s : System} {k : Nat} {th th' : Thread} {t' : Tiers}
    (hs : Within settings user s) (hk : s.threads[k]? = some th)
    (heffect : Effect settings s.shared.rows th t'.rows th') :
    Within settings user ⟨t', s.threads.set k th'⟩ := by
  generalize hrows : t'.rows = rows at heffect
  cases heffect with
  | same h =>
      refine hs.mono ?_
      rw [hrows]
      exact total_mono fun r _ hr => hr.of_set hk (h ▸ hr.set_self hk)
  | commit row before h =>
      refine hs.mono ?_
      rw [hrows, total_append_neg fun hrow => hrow.set_self hk h]
      exact total_mono fun r _ hr => hr.of_set hk (by rw [before]; exact fun he => by cases he)
  | remove row before h =>
      refine hs.mono ?_
      rw [hrows]
      refine Nat.le_trans (total_filter_le _) (total_mono fun r _ hr => ?_)
      refine hr.1.of_set hk fun hheld => ?_
      rw [before r hheld] at hr
      exact absurd hr.2 (by simp)
  | pass row before h fits =>
      by_cases huser : row.userId = user
      · have hle : total (Confirmed (s.threads.set k th') user) s.shared.rows ≤
            userStorageUsed s.shared.rows row.userId :=
          total_mono fun r _ hr => hr.1.trans huser.symm
        rw [Within, hrows]
        exact Int.le_trans (Int.ofNat_le.mpr hle) fits
      · refine hs.mono ?_
        rw [hrows]
        refine total_mono fun r _ hr => hr.of_set hk fun hheld => ?_
        rw [before, Option.some.injEq] at hheld
        exact huser (hheld ▸ hr.1)

theorem step_within (hquota : settings.maxUserStorageBytes ≠ 0) {user : Str} {s s' : System}
    {act : Act} (hs : Within settings user s) (h : step settings s act = some s') :
    Within settings user s' := by
  cases act with
  | storeUpload u =>
      cases h
      exact arrive_within hs (.called u)
  | deleteUpload conversation fileId =>
      cases h
      exact arrive_within hs (.lookingUp conversation fileId)
  | advance k answer =>
      obtain ⟨th, t', th', hk, hadvance, rfl⟩ := move_eq_some.mp h
      exact effect_within hs hk (effect_of_move hquota (move_of_advance hadvance))

theorem held_uploader {th : Thread} {row : ConversationFile} (h : held th = some row) :
    uploader th = some row.userId := by
  cases th with
  | checking r =>
      cases h
      rfl
  | removing r left reply =>
      simp only [held] at h
      split at h
      · cases h
      next hreply =>
        cases h
        exact if_neg hreply
  | called | opening | reading | persisting | copying | committing | lookingUp | done => cases h

/-- Whenever no upload of the user is in progress, what the user has stored is
within the quota, whatever calls of any users have run before. -/
theorem within_quota_at_rest (hquota : 0 < settings.maxUserStorageBytes) (t : Tiers) (user : Str)
    (hstart : (userStorageUsed t.rows user : Int) ≤ settings.maxUserStorageBytes)
    {acts : List Act} {s : System} (hrun : run (step settings) ⟨t, []⟩ acts = some s)
    (hrest : ∀ th ∈ s.threads, uploader th ≠ some user) :
    (userStorageUsed s.shared.rows user : Int) ≤ settings.maxUserStorageBytes := by
  have hwithin : Within settings user s := by
    refine run_invariant (I := Within settings user) (fun _ _ _ hs h => step_within (Int.ne_of_gt hquota) hs h)
      ?_ hrun
    exact Int.le_trans (Int.ofNat_le.mpr (total_mono fun r _ hr => hr.1)) hstart
  refine Int.le_trans (Int.ofNat_le.mpr ?_) hwithin
  refine total_mono fun r _ hr => ⟨hr, fun th hth hheld => hrest th hth ?_⟩
  rw [held_uploader hheld, hr]

def race : List Act :=
  [.storeUpload firstSix, .storeUpload secondSix] ++
    List.replicate 9 (.advance 0 .ok) ++ List.replicate 10 (.advance 1 .ok) ++
      List.replicate 5 (.advance 0 .ok) ++ [.advance 1 .ok]

theorem within_quota_at_rest_race :
    ∃ s, run (step tenBytes) ⟨oneConversation, []⟩ race = some s ∧
      (userStorageUsed s.shared.rows "usr_1" : Int) ≤ 10 := by
  obtain ⟨s, hrun, hrest⟩ : ∃ s, run (step tenBytes) ⟨oneConversation, []⟩ race = some s ∧
      ∀ th ∈ s.threads, uploader th ≠ some (str "usr_1") := ⟨_, rfl, by decide⟩
  exact ⟨s, hrun, within_quota_at_rest (by decide) oneConversation "usr_1" (by decide) hrun hrest⟩

end AgentWeb.Quota
