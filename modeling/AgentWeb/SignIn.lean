import AgentWeb.Revocation
import Mathlib.Data.List.Nodup

namespace AgentWeb.SignIn

open PyText Accounts Revocation Interleaving Transitions

/-- The rows of all users, the tokens signed so far and the clock. -/
structure Directory where
  users : List User
  minted : List Token
  now : Int

def Directory.account (d : Directory) (row : User) : Account := ⟨row, d.minted, d.now⟩

/-- `enter` is a request to any other route behind `authenticate_user`. The id and the
salts are drawn by the service. -/
inductive Request
  | register (id email password salt : Str)
  | account (r : Revocation.Request)
  | enter (accessToken : Option Token)

def Request.credentials : Request → Option (Str × Str)
  | .register _ email password _ => some (email, password)
  | .account (.login email password) => some (email, password)
  | _ => none

def Request.token : Request → Option Token
  | .account (.refresh token) => some token
  | .account (.revokeAllTokens token) | .account (.changePassword token _ _ _) | .enter token =>
      token
  | _ => none

def Request.salt : Request → Str
  | .register _ _ _ salt | .account (.changePassword _ _ _ salt) => salt
  | _ => []

inductive Stage
  | arrived
  /-- The email is not taken yet. -/
  | adding (user : User)
  /-- The session has found whose request it is. -/
  | loaded (user : User)
  | committed (user : User)
  | answered (user : Option User) (pair : Option (Token × Token))

def Stage.user : Stage → Option User
  | .loaded user | .committed user => some user
  | .answered user _ => user
  | _ => none

def Stage.pair : Stage → Option (Token × Token)
  | .answered _ pair => pair
  | _ => none

/-- A request in a session of its own, by one of the parties that use the service. -/
structure Session where
  caller : Nat
  request : Request
  stage : Stage

abbrev System := Pool Directory Session

def wallet (s : System) (caller : Nat) : List Token :=
  (s.threads.filter (·.caller = caller)).flatMap fun x => pairTokens x.stage.pair

inductive Act
  | arrive (caller : Nat) (r : Request)
  | advance (k : Nat)
  | tick (now : Int)

section

variable [Pbkdf2]

def lookup (d : Directory) : Request → Option User
  | .account (.login email _) => d.users.find? (·.email = email)
  | r => r.token.bind fun token => d.users.find? (·.id = token.sub)

def admits (d : Directory) (row : User) : Request → Option User
  | .account r => (loads (d.account row) r).toOption
  | .enter token => (userForAccessToken (d.account row) token).toOption
  | .register _ _ _ _ => none

def letIn (d : Directory) (r : Request) : Option User := (lookup d r).bind (admits d · r)

def storeRow (user : User) (r : Revocation.Request) (row : User) : User :=
  if row.id = user.id then (stores user row r).getD row else row

def signs (d : Directory) (user : User) (pair : Option (Token × Token)) (x : Session) :
    Directory × Session :=
  ({ d with minted := d.minted ++ pairTokens pair }, { x with stage := .answered (some user) pair })

def advance (settings : Settings) (d : Directory) (_ : Unit) (x : Session) :
    Option (Directory × Session) :=
  match x.stage, x.request with
  | .arrived, .register id email password salt =>
      if d.users.any (·.email = email) then some (d, { x with stage := .answered none none })
      else some (d, { x with stage := .adding (register id email password salt) })
  | .arrived, r => match letIn d r with
    | none => some (d, { x with stage := .answered none none })
    | some user => some (d, { x with stage := .loaded user })
  -- the primary key and the index on the email decide
  | .adding user, _ =>
      if d.users.any fun row => row.email = user.email || row.id = user.id then
        some (d, { x with stage := .answered none none })
      else some ({ d with users := d.users ++ [user] }, { x with stage := .committed user })
  | .committed user, _ => some (signs d user (some (tokenPair settings d.now user)) x)
  | .loaded user, .account r =>
      some (signs { d with users := d.users.map (storeRow user r) } user
        (mints settings d.now user r) x)
  | .loaded user, _ => some (d, { x with stage := .answered (some user) none })
  | .answered _ _, _ => none

/-- A party can show the tokens it was answered with, since it cannot sign others. A salt
is written in hexadecimal digits. -/
def step (settings : Settings) (s : System) : Act → Option System
  | .arrive caller r =>
      if (∀ token ∈ r.token, token ∈ wallet s caller) ∧ 36 ∉ r.salt then
        some { s with threads := s.threads ++ [⟨caller, r, .arrived⟩] }
      else none
  | .advance k => s.move (advance settings) k ()
  | .tick now => some { s with shared := { s.shared with now := now } }

inductive Advances (d : Directory) (x : Session) : Directory → Stage → Prop
  | refuse (h : x.stage.user = none) : Advances d x d (.answered none none)
  | adds (id email password salt : Str) (h : x.stage = .arrived)
      (hr : x.request = .register id email password salt) :
      Advances d x d (.adding (register id email password salt))
  | load (user : User) (h : x.stage = .arrived) (hu : letIn d x.request = some user) :
      Advances d x d (.loaded user)
  | insert (user : User) (h : x.stage = .adding user) (hfree : ∀ row ∈ d.users, row.id ≠ user.id) :
      Advances d x { d with users := d.users ++ [user] } (.committed user)
  | answer (user : User) (pair : Option (Token × Token)) (h : x.stage.user = some user)
      (hpair : ∀ token ∈ pairTokens pair, token.sub = user.id ∧ token.ver = user.tokenVersion) :
      Advances d x { d with minted := d.minted ++ pairTokens pair } (.answered (some user) pair)
  | store (user : User) (r : Revocation.Request) (pair : Option (Token × Token))
      (h : x.stage = .loaded user) (hr : x.request = .account r)
      (hpair : ∀ token ∈ pairTokens pair, token.sub = user.id ∧ token.ver = user.tokenVersion) :
      Advances d x ⟨d.users.map (storeRow user r), d.minted ++ pairTokens pair, d.now⟩
        (.answered (some user) pair)

omit [Pbkdf2] in
theorem pairTokens_tokenPair {settings : Settings} {now : Int} {user : User} :
    ∀ token ∈ pairTokens (some (tokenPair settings now user)),
      token.sub = user.id ∧ token.ver = user.tokenVersion := by
  intro token h
  simp only [pairTokens, Option.elim_some, List.mem_cons, List.not_mem_nil, or_false] at h
  rcases h with rfl | rfl <;> exact ⟨rfl, rfl⟩

omit [Pbkdf2] in
theorem pairTokens_mints {settings : Settings} {now : Int} {user : User} {r : Revocation.Request} :
    ∀ token ∈ pairTokens (mints settings now user r),
      token.sub = user.id ∧ token.ver = user.tokenVersion := by
  cases r with
  | login email password => exact pairTokens_tokenPair
  | refresh token => exact pairTokens_tokenPair
  | revokeAllTokens token | changePassword token oldPassword newPassword salt =>
      exact fun token h => absurd h List.not_mem_nil

theorem Advances.unsigned {d : Directory} {x : Session} {user : User} (h : x.stage.user = some user) :
    Advances d x d (.answered (some user) none) := by
  have := Advances.answer (d := d) user none h fun token h => absurd h List.not_mem_nil
  simpa [pairTokens] using this

theorem advance_cases {settings : Settings} {d d' : Directory} {x x' : Session}
    (h : advance settings d () x = some (d', x')) :
    x.stage.pair = none ∧ ∃ stage, x' = { x with stage := stage } ∧ Advances d x d' stage := by
  rcases x with ⟨caller, r, stage⟩
  have harrived : ∀ r, stage = .arrived → (match letIn d r with
      | none => some (d, (⟨caller, r, .answered none none⟩ : Session))
      | some user => some (d, ⟨caller, r, .loaded user⟩)) = some (d', x') →
      stage.pair = none ∧
        ∃ st, x' = ⟨caller, r, st⟩ ∧ Advances d ⟨caller, r, stage⟩ d' st := by
    rintro r rfl h
    split at h
    · cases h
      exact ⟨rfl, _, rfl, .refuse rfl⟩
    next user hu =>
      cases h
      exact ⟨rfl, _, rfl, .load user rfl hu⟩
  cases stage with
  | arrived =>
      cases r with
      | register id email password salt =>
          simp only [advance] at h
          split at h
          · cases h
            exact ⟨rfl, _, rfl, .refuse rfl⟩
          · cases h
            exact ⟨rfl, _, rfl, .adds id email password salt rfl rfl⟩
      | account r => exact harrived _ rfl h
      | enter token => exact harrived _ rfl h
  | adding user =>
      simp only [advance] at h
      split at h
      · cases h
        exact ⟨rfl, _, rfl, .refuse rfl⟩
      next hfree =>
        cases h
        refine ⟨rfl, _, rfl, .insert user rfl fun row hrow hid => hfree ?_⟩
        exact List.any_eq_true.mpr ⟨row, hrow, by simp [hid]⟩
  | committed user =>
      cases h
      exact ⟨rfl, _, rfl, .answer user _ rfl pairTokens_tokenPair⟩
  | loaded user =>
      cases r with
      | account r =>
          cases h
          exact ⟨rfl, _, rfl, .store user r _ rfl rfl pairTokens_mints⟩
      | register id email password salt | enter token =>
          cases h
          exact ⟨rfl, _, rfl, .unsigned rfl⟩
  | answered user pair => cases r <;> cases h

/-- The password that the request shows is that of the row. -/
def Session.Shows (x : Session) (row : User) : Prop :=
  ∃ password, x.request.credentials = some (row.email, password) ∧
    verifyPassword password row.passwordHash = true

/-- The party has been let in by the password of the row. -/
def Knows (threads : List Session) (caller : Nat) (row : User) : Prop :=
  ∃ x ∈ threads, (x.caller = caller ∧ x.stage.user.isSome = true) ∧ x.Shows row

theorem verifyPassword_hashPassword (password : Str) {salt : Str} (h : 36 ∉ salt) :
    verifyPassword password (hashPassword password salt) = true := by
  have hne : ∀ c ∈ salt, (c != 36) = true := fun c hc => by
    simpa using fun he : c = 36 => h (he ▸ hc)
  have htake : (salt ++ 36 :: Pbkdf2.digest password salt).takeWhile (· != 36) = salt := by
    rw [List.takeWhile_append_of_pos hne]
    simp
  have hdrop : ((salt ++ 36 :: Pbkdf2.digest password salt).dropWhile (· != 36)).tail =
      Pbkdf2.digest password salt := by
    rw [List.dropWhile_append_of_pos hne]
    simp
  have hashed : hashPassword password salt = salt ++ 36 :: Pbkdf2.digest password salt := by
    rw [hashPassword]
    exact List.append_assoc ..
  rw [hashed, verifyPassword, if_pos (by simp), htake, hdrop, decide_eq_true rfl]

omit [Pbkdf2] in
theorem mem_wallet {s : System} {caller : Nat} {token : Token} :
    token ∈ wallet s caller ↔
      ∃ x ∈ s.threads, x.caller = caller ∧ token ∈ pairTokens x.stage.pair := by
  simp only [wallet, List.mem_flatMap, List.mem_filter, decide_eq_true_eq, and_assoc]

theorem login_shows {a : Account} {email password : Str} {user : User}
    (h : login a email password = .ok user) :
    user.email = email ∧ verifyPassword password user.passwordHash = true := by
  rw [login] at h
  split_ifs at h with hwrong
  cases h
  rw [not_or, not_not, Bool.not_eq_false] at hwrong
  exact hwrong

omit [Pbkdf2] in
theorem userForAccessToken_ver {a : Account} {token : Option Token} {user : User}
    (h : userForAccessToken a token = .ok user) :
    ∃ t, token = some t ∧ user = a.user ∧ t.ver = a.user.tokenVersion := by
  cases token with
  | none => cases h
  | some t => exact ⟨t, rfl, userOfToken_ver h⟩

omit [Pbkdf2] in
theorem toOption_eq_some {ε α : Type} {x : Except ε α} {a : α} :
    x.toOption = some a ↔ x = .ok a := by
  cases x <;> simp [Except.toOption]

theorem letIn_cases {d : Directory} {r : Request} {user : User} (h : letIn d r = some user) :
    user ∈ d.users ∧
      ((∃ password, r.credentials = some (user.email, password) ∧
          verifyPassword password user.passwordHash = true) ∨
        ∃ token, r.token = some token ∧ token.sub = user.id ∧ token.ver = user.tokenVersion) := by
  obtain ⟨row, hrow, hadmits⟩ := Option.bind_eq_some_iff.mp h
  have htoken (token : Option Token)
      (hrow : (token.bind fun t => d.users.find? (·.id = t.sub)) = some row)
      (hver : ∃ t, token = some t ∧ user = row ∧ t.ver = row.tokenVersion) :
      user ∈ d.users ∧ ∃ t, token = some t ∧ t.sub = user.id ∧ t.ver = user.tokenVersion := by
    obtain ⟨t, rfl, rfl, ht⟩ := hver
    have hid : user.id = t.sub := by simpa using List.find?_some hrow
    exact ⟨List.mem_of_find?_eq_some hrow, t, rfl, hid.symm, ht⟩
  cases r with
  | register id email password salt => simp [lookup, Request.token] at hrow
  | enter token =>
      exact (htoken token hrow (userForAccessToken_ver (toOption_eq_some.mp hadmits))).imp id .inr
  | account r =>
      have hloads := toOption_eq_some.mp hadmits
      cases r with
      | login email password =>
          have hsame : user = row := login_user hloads
          obtain ⟨rfl, hpassword⟩ := login_shows hloads
          exact ⟨hsame ▸ List.mem_of_find?_eq_some hrow, .inl ⟨password, rfl, hpassword⟩⟩
      | refresh token =>
          exact (htoken (some token) hrow ⟨token, rfl, userOfToken_ver hloads⟩).imp id .inr
      | revokeAllTokens token | changePassword token oldPassword newPassword salt =>
          exact (htoken token hrow (userForAccessToken_ver hloads)).imp id .inr

structure Regular (s : System) : Prop where
  salted : ∀ x ∈ s.threads, 36 ∉ x.request.salt
  held : ∀ x ∈ s.threads, ∀ token ∈ x.request.token, token ∈ wallet s x.caller
  adding : ∀ x ∈ s.threads, ∀ user, x.stage = .adding user → x.Shows user
  signed : ∀ x ∈ s.threads, ∀ token ∈ pairTokens x.stage.pair,
    ∃ user, x.stage.user = some user ∧ token.sub = user.id ∧ token.ver = user.tokenVersion

theorem Advances.user {d d' : Directory} {x : Session} {stage : Stage} (h : Advances d x d' stage)
    (hx : x.stage.user.isSome) : stage.user.isSome := by
  cases h with
  | refuse h => simp [h] at hx
  | adds _ _ _ _ h | load _ h | insert _ h => simp [h, Stage.user] at hx
  | answer | store => rfl

section

variable {s : System} {k : Nat} {x : Session} {stage : Stage}

omit [Pbkdf2] in
theorem wallet_set (hk : s.threads[k]? = some x) (hpair : x.stage.pair = none) {d : Directory}
    {caller : Nat} {token : Token} (h : token ∈ wallet s caller) :
    token ∈ wallet ⟨d, s.threads.set k { x with stage := stage }⟩ caller := by
  rw [mem_wallet] at h ⊢
  refine exists_set hk h fun hx => ?_
  rw [hpair] at hx
  exact absurd hx.2 List.not_mem_nil

theorem Knows.set (hk : s.threads[k]? = some x) (huser : x.stage.user.isSome → stage.user.isSome)
    {caller : Nat} {row : User} (h : Knows s.threads caller row) :
    Knows (s.threads.set k { x with stage := stage }) caller row :=
  exists_set hk h fun ⟨⟨hcaller, hx⟩, hshows⟩ => ⟨⟨hcaller, huser hx⟩, hshows⟩

theorem Knows.append {threads : List Session} {caller : Nat} {row : User}
    (h : Knows threads caller row) (x : Session) : Knows (threads ++ [x]) caller row :=
  h.imp fun _ ⟨hmem, hx⟩ => ⟨List.mem_append_left _ hmem, hx⟩

end

theorem step_cases {settings : Settings} {s t : System} {act : Act}
    (h : step settings s act = some t) :
    (∃ now, t = ⟨{ s.shared with now := now }, s.threads⟩) ∨
      (∃ caller r, (∀ token ∈ r.token, token ∈ wallet s caller) ∧ 36 ∉ r.salt ∧
        t = ⟨s.shared, s.threads ++ [⟨caller, r, .arrived⟩]⟩) ∨
      ∃ k x d stage, act = .advance k ∧ s.threads[k]? = some x ∧ x.stage.pair = none ∧
        Advances s.shared x d stage ∧ t = ⟨d, s.threads.set k { x with stage := stage }⟩ := by
  cases act with
  | tick now =>
      cases h
      exact .inl ⟨now, rfl⟩
  | arrive caller r =>
      simp only [step] at h
      split at h
      next hr =>
        cases h
        exact .inr (.inl ⟨caller, r, hr.1, hr.2, rfl⟩)
      next => cases h
  | advance k =>
      obtain ⟨x, d, x', hk, hadvance, rfl⟩ := move_eq_some.mp h
      obtain ⟨hpair, stage, rfl, hcase⟩ := advance_cases hadvance
      exact .inr (.inr ⟨k, x, d, stage, rfl, hk, hpair, hcase, rfl⟩)

theorem step_regular {settings : Settings} {s t : System} {act : Act} (hs : Regular s)
    (h : step settings s act = some t) : Regular t := by
  rcases step_cases h with ⟨now, rfl⟩ | ⟨caller, r, hheld, hsalt, rfl⟩ |
    ⟨k, x, d, stage, -, hk, hpair, hcase, rfl⟩
  · exact ⟨hs.salted, hs.held, hs.adding, hs.signed⟩
  · have hwallet : ∀ {p : Nat} {token : Token}, token ∈ wallet s p →
        token ∈ wallet ⟨s.shared, s.threads ++ [⟨caller, r, .arrived⟩]⟩ p := by
      intro p token htoken
      rw [mem_wallet] at htoken ⊢
      exact htoken.imp fun y hy => ⟨List.mem_append_left _ hy.1, hy.2⟩
    refine ⟨fun y hy => ?_, fun y hy token htoken => ?_, fun y hy user hadd => ?_,
      fun y hy token htoken => ?_⟩
    all_goals rcases mem_append_singleton.mp hy with hy | rfl
    · exact hs.salted y hy
    · exact hsalt
    · exact hwallet (hs.held y hy token htoken)
    · exact hwallet (hheld token htoken)
    · exact hs.adding y hy user hadd
    · cases hadd
    · exact hs.signed y hy token htoken
    · exact absurd htoken List.not_mem_nil
  · have hx := List.mem_of_getElem? hk
    refine ⟨fun y hy => ?_, fun y hy token htoken => ?_, fun y hy user hadd => ?_,
      fun y hy token htoken => ?_⟩
    all_goals rcases List.mem_or_eq_of_mem_set hy with hy | rfl
    · exact hs.salted y hy
    · exact hs.salted x hx
    · exact wallet_set hk hpair (hs.held y hy token htoken)
    · exact wallet_set hk hpair (hs.held x hx token htoken)
    · exact hs.adding y hy user hadd
    · cases hcase with
      | adds id email password salt _ hr =>
          cases hadd
          refine ⟨password, by rw [hr]; rfl, verifyPassword_hashPassword password ?_⟩
          simpa [hr, Request.salt] using hs.salted x hx
      | _ => cases hadd
    · exact hs.signed y hy token htoken
    · cases hcase with
      | answer user pair _ htokens | store user r pair _ _ htokens =>
          exact ⟨user, rfl, htokens token htoken⟩
      | _ => exact absurd htoken List.not_mem_nil

theorem regular_start (d : Directory) : Regular ⟨d, []⟩ where
  salted _ h := absurd h List.not_mem_nil
  held _ h := absurd h List.not_mem_nil
  adding _ h := absurd h List.not_mem_nil
  signed _ h := absurd h List.not_mem_nil

theorem knows_self {threads : List Session} {k : Nat} {x : Session} {stage : Stage} {row : User}
    (hk : threads[k]? = some x) (huser : stage.user.isSome) (h : x.Shows row) :
    Knows (threads.set k { x with stage := stage }) x.caller row :=
  ⟨_, mem_set_self hk _, ⟨rfl, huser⟩, h⟩

/-- Who is taken for a user has been let in by the password of a row of that user in `P`. -/
structure Vouched (P : User → Prop) (s : System) : Prop extends Regular s where
  rows : ∀ row ∈ s.shared.users, P row
  known : ∀ x ∈ s.threads, ∀ user, x.stage.user = some user →
    ∃ row, P row ∧ row.id = user.id ∧ Knows s.threads x.caller row

theorem signed_of_held {s : System} (hs : Regular s) {x : Session} (hx : x ∈ s.threads) {token : Token}
    (h : x.request.token = some token) : ∃ y ∈ s.threads, y.caller = x.caller ∧
      ∃ user, y.stage.user = some user ∧ token.sub = user.id ∧ token.ver = user.tokenVersion := by
  obtain ⟨y, hy, hcaller, hpair⟩ := mem_wallet.mp (hs.held x hx token h)
  exact ⟨y, hy, hcaller, hs.signed y hy token hpair⟩

theorem step_vouched {P : User → Prop} {settings : Settings} {s t : System} {act : Act}
    (hP : ∀ row ∈ t.shared.users, P row) (hs : Vouched P s) (h : step settings s act = some t) :
    Vouched P t := by
  refine ⟨step_regular hs.toRegular h, hP, fun y hy user hu => ?_⟩
  rcases step_cases h with ⟨now, rfl⟩ | ⟨caller, r, -, -, rfl⟩ | ⟨k, x, d, stage, -, hk, -, hcase, rfl⟩
  · exact hs.known y hy user hu
  · rcases mem_append_singleton.mp hy with hy | rfl
    · obtain ⟨row, hrow, hid, hknows⟩ := hs.known y hy user hu
      exact ⟨row, hrow, hid, hknows.append _⟩
    · cases hu
  · have hx := List.mem_of_getElem? hk
    have hkept : ∀ z ∈ s.threads, z.stage.user = some user →
        ∃ row, P row ∧ row.id = user.id ∧
          Knows (s.threads.set k { x with stage := stage }) z.caller row := by
      intro z hz hu
      obtain ⟨row, hrow, hid, hknows⟩ := hs.known z hz user hu
      exact ⟨row, hrow, hid, hknows.set hk hcase.user⟩
    rcases List.mem_or_eq_of_mem_set hy with hy | rfl
    · exact hkept y hy hu
    · cases hcase with
      | refuse | adds => cases hu
      | load _ _ hin =>
          cases hu
          obtain ⟨hmem, ⟨password, hshows⟩ | ⟨token, htoken, hsub, -⟩⟩ := letIn_cases hin
          · exact ⟨user, hs.rows user hmem, rfl, knows_self hk rfl ⟨password, hshows⟩⟩
          · obtain ⟨y, hy, hcaller, owner, howner, hid, -⟩ := signed_of_held hs.toRegular hx htoken
            obtain ⟨row, hrow, hrowid, hknows⟩ := hs.known y hy owner howner
            rw [hcaller] at hknows
            exact ⟨row, hrow, hrowid.trans (hid.symm.trans hsub), hknows.set hk fun _ => rfl⟩
      | insert _ hadding =>
          cases hu
          exact ⟨user, hP user (List.mem_append_right _ (List.mem_singleton_self user)), rfl,
            knows_self hk rfl (hs.adding x hx user hadding)⟩
      | answer _ _ huser =>
          cases hu
          exact hkept x hx huser
      | store _ _ _ hloaded =>
          cases hu
          exact hkept x hx (by rw [hloaded]; rfl)

/-- A row that is there at some point of the run. -/
def Had (settings : Settings) (d : Directory) (acts : List Act) (row : User) : Prop :=
  ∃ t, Passes (step settings) ⟨d, []⟩ acts t ∧ row ∈ t.shared.users

/-- Nobody is taken for a user who has not signed in as that user with a password that was
the user's when it did, or registered the user. -/
theorem letIn_signedIn (settings : Settings) {d : Directory} {acts : List Act} {s : System}
    (hr : run (step settings) ⟨d, []⟩ acts = some s) {x : Session} (hx : x ∈ s.threads) {user : User}
    (hu : x.stage.user = some user) : ∃ t row, Passes (step settings) ⟨d, []⟩ acts t ∧
      row ∈ t.shared.users ∧ row.id = user.id ∧ Knows s.threads x.caller row := by
  have hpassed : ∀ t, Passes (step settings) ⟨d, []⟩ acts t →
      ∀ row ∈ t.shared.users, Had settings d acts row :=
    fun t ht row hrow => ⟨t, ht, hrow⟩
  have hstart : Vouched (Had settings d acts) ⟨d, []⟩ :=
    ⟨regular_start d, hpassed _ (passes_start _ acts), fun _ h => absurd h List.not_mem_nil⟩
  have hs : Vouched (Had settings d acts) s :=
    run_invariant_of_passes (fun _ _ _ hP hI hstep => step_vouched hP hI hstep) hpassed hstart hr
  obtain ⟨row, ⟨t, ht, hrow⟩, hid, hknows⟩ := hs.known x hx user hu
  exact ⟨t, row, ht, hrow, hid, hknows⟩

end

def firstEntry : List Act :=
  [.arrive 0 (.register "usr_1" "a@b.c" "password-1" "5a17"), .advance 0, .advance 0, .advance 0,
    .arrive 0 (.enter (some firstAccess)), .advance 1]

def empty : Directory := ⟨[], [], 0⟩

theorem letIn_signedIn_firstEntry :
    letI : Pbkdf2 := salted
    ∃ s t row, run (step halfHour) ⟨empty, []⟩ firstEntry = some s ∧
      Passes (step halfHour) ⟨empty, []⟩ firstEntry t ∧ row ∈ t.shared.users ∧
        row.id = str "usr_1" ∧ Knows s.threads 0 row := by
  let digest : Pbkdf2 := salted
  obtain ⟨s, x, hr, hx, hcaller, hu⟩ : ∃ s x, run (step halfHour) ⟨empty, []⟩ firstEntry = some s ∧
      s.threads[1]? = some x ∧ x.caller = 0 ∧
        x.stage.user = some (register "usr_1" "a@b.c" "password-1" "5a17") :=
    ⟨_, _, rfl, rfl, rfl, rfl⟩
  obtain ⟨t, row, ht, hrow, hrowid, hknows⟩ :=
    letIn_signedIn halfHour hr (List.mem_of_getElem? hx) hu
  rw [hcaller] at hknows
  exact ⟨s, t, row, hr, ht, hrow, hrowid, hknows⟩

section

variable [Pbkdf2]

def Behind (d : Directory) (user : User) : Prop :=
  ∃ row ∈ d.users, row.id = user.id ∧ row.email = user.email ∧ user.tokenVersion ≤ row.tokenVersion ∧
    (user.tokenVersion = row.tokenVersion → user.passwordHash = row.passwordHash)

/-- A session that stores a version finds the one there that it has loaded. -/
def CurrentOf (d : Directory) (x : Session) : Prop :=
  match x.stage, x.request with
  | .loaded user, .account r =>
      ∀ row ∈ d.users, row.id = user.id → CurrentAt (d.account row) (.loaded r user)
  | _, _ => True

instance (d : Directory) : (x : Session) → Decidable (CurrentOf d x)
  | ⟨_, .account r, .loaded user⟩ => inferInstanceAs (Decidable
      (∀ row ∈ d.users, row.id = user.id → CurrentAt (d.account row) (.loaded r user)))
  | ⟨_, .register _ _ _ _, .loaded _⟩ | ⟨_, .enter _, .loaded _⟩ => .isTrue trivial
  | ⟨_, _, .arrived⟩ | ⟨_, _, .adding _⟩ | ⟨_, _, .committed _⟩ | ⟨_, _, .answered _ _⟩ =>
      .isTrue trivial

def Current (s : System) : Act → Prop
  | .advance k => ∀ x ∈ s.threads[k]?, CurrentOf s.shared x
  | _ => True

instance (s : System) : (act : Act) → Decidable (Current s act)
  | .advance _ => inferInstanceAs (Decidable (∀ x ∈ _, _))
  | .arrive _ _ | .tick _ => .isTrue trivial

structure Stamped (s : System) : Prop extends Regular s where
  distinct : (s.shared.users.map User.id).Nodup
  known : ∀ x ∈ s.threads, ∀ user, x.stage.user = some user →
    Knows s.threads x.caller user ∧ Behind s.shared user

theorem storeRow_cases (user : User) (r : Revocation.Request) (row : User) :
    storeRow user r row = row ∨ row.id = user.id ∧ (stores user row r).isSome ∧
      (storeRow user r row).id = row.id ∧ (storeRow user r row).email = row.email ∧
      (storeRow user r row).tokenVersion = user.tokenVersion + 1 := by
  rw [storeRow]
  split
  next hid =>
    cases hstores : stores user row r with
    | none => exact .inl rfl
    | some row' =>
        refine .inr ⟨hid, rfl, ?_, ?_, stores_version hstores⟩
        all_goals cases r with
          | login email password | refresh token => cases hstores
          | revokeAllTokens token =>
              cases hstores
              rfl
          | changePassword token oldPassword newPassword salt =>
              simp only [stores, changePassword] at hstores
              split at hstores
              · cases hstores
              · cases hstores
                rfl
  next => exact .inl rfl

theorem storeRow_id (user : User) (r : Revocation.Request) (row : User) :
    (storeRow user r row).id = row.id := by
  rcases storeRow_cases user r row with h | ⟨-, -, h, -⟩
  · rw [h]
  · exact h

omit [Pbkdf2] in
theorem Behind.refl {d : Directory} {user : User} (h : user ∈ d.users) : Behind d user :=
  ⟨user, h, rfl, rfl, le_rfl, fun _ => rfl⟩

theorem Behind.store {d : Directory} {user : User} {r : Revocation.Request} {v : User}
    (h : Behind d v)
    (hcurrent : ∀ row ∈ d.users, row.id = user.id → CurrentAt (d.account row) (.loaded r user))
    (minted : List Token) : Behind ⟨d.users.map (storeRow user r), minted, d.now⟩ v := by
  obtain ⟨row, hrow, hid, hemail, hle, hhash⟩ := h
  refine ⟨storeRow user r row, List.mem_map_of_mem hrow, ?_⟩
  rcases storeRow_cases user r row with hsame | ⟨hrowid, hstores, hid', hemail', hver⟩
  · rw [hsame]
    exact ⟨hid, hemail, hle, hhash⟩
  · have hfound : row.tokenVersion = user.tokenVersion := hcurrent row hrow hrowid hstores
    refine ⟨hid'.trans hid, hemail'.trans hemail, by omega, fun he => ?_⟩
    omega

theorem Session.Shows.of_eq {x : Session} {user row : User} (h : x.Shows user)
    (hemail : row.email = user.email) (hhash : user.passwordHash = row.passwordHash) : x.Shows row := by
  rw [Session.Shows, hemail, ← hhash]
  exact h

theorem Stamped.knows_row {s : System} (hs : Stamped s) {y : Session} (hy : y ∈ s.threads) {owner row : User}
    (howner : y.stage.user = some owner) (hrow : row ∈ s.shared.users) (hid : row.id = owner.id)
    (hver : row.tokenVersion = owner.tokenVersion) : Knows s.threads y.caller row := by
  obtain ⟨⟨z, hz, hlet, hshows⟩, row', hrow', hid', hemail, -, hhash⟩ := hs.known y hy owner howner
  obtain rfl : row' = row := List.inj_on_of_nodup_map hs.distinct hrow' hrow (hid'.trans hid.symm)
  exact ⟨z, hz, hlet, hshows.of_eq hemail (hhash hver.symm)⟩

theorem step_stamped {settings : Settings} {s t : System} {act : Act} (hs : Stamped s)
    (hcurrent : Current s act) (h : step settings s act = some t) : Stamped t := by
  have hregular := step_regular hs.toRegular h
  rcases step_cases h with ⟨now, rfl⟩ | ⟨caller, r, -, -, rfl⟩ | ⟨k, x, d, stage, rfl, hk, -, hcase, rfl⟩
  · exact ⟨hregular, hs.distinct, hs.known⟩
  · refine ⟨hregular, hs.distinct, fun y hy user hu => ?_⟩
    rcases mem_append_singleton.mp hy with hy | rfl
    · exact (hs.known y hy user hu).imp (·.append _) id
    · cases hu
  · have hx := List.mem_of_getElem? hk
    have hfound := hcurrent x hk
    have hkept : ∀ {d : Directory}, (∀ v, Behind s.shared v → Behind d v) → ∀ z ∈ s.threads,
        ∀ user, z.stage.user = some user →
          Knows (s.threads.set k { x with stage := stage }) z.caller user ∧ Behind d user :=
      fun hbehind z hz user hu =>
        (hs.known z hz user hu).imp (fun hknows => hknows.set hk hcase.user) (hbehind user)
    have hall : ∀ {d : Directory}, (d.users.map User.id).Nodup →
        (∀ v, Behind s.shared v → Behind d v) →
        (∀ user, stage.user = some user →
          Knows (s.threads.set k { x with stage := stage }) x.caller user ∧ Behind d user) →
        Regular ⟨d, s.threads.set k { x with stage := stage }⟩ →
          Stamped ⟨d, s.threads.set k { x with stage := stage }⟩ := by
      intro d hdistinct hbehind hself hregular
      refine ⟨hregular, hdistinct, fun y hy user hu => ?_⟩
      rcases List.mem_or_eq_of_mem_set hy with hy | rfl
      · exact hkept hbehind y hy user hu
      · exact hself user hu
    cases hcase with
    | refuse | adds => exact hall hs.distinct (fun _ => id) (fun _ h => by cases h) hregular
    | load user _ hin =>
        refine hall hs.distinct (fun _ => id) ?_ hregular
        rintro _ ⟨⟩
        obtain ⟨hmem, ⟨password, hshows⟩ | ⟨token, htoken, hsub, hver⟩⟩ := letIn_cases hin
        · exact ⟨knows_self hk rfl ⟨password, hshows⟩, .refl hmem⟩
        · obtain ⟨y, hy, hcaller, owner, howner, hid, hver'⟩ := signed_of_held hs.toRegular hx htoken
          have hknows := hs.knows_row hy howner hmem (hsub.symm.trans hid) (hver.symm.trans hver')
          rw [hcaller] at hknows
          exact ⟨hknows.set hk fun _ => rfl, .refl hmem⟩
    | insert user hadding hfree =>
        refine hall ?_ (fun v hv => ?_) ?_ hregular
        · rw [List.map_append]
          refine hs.distinct.append (List.nodup_singleton _) ?_
          simpa using fun row hrow => hfree row hrow
        · exact hv.imp fun row hrow => ⟨List.mem_append_left _ hrow.1, hrow.2⟩
        · rintro _ ⟨⟩
          exact ⟨knows_self hk rfl (hs.adding x hx user hadding),
            .refl (List.mem_append_right _ (List.mem_singleton_self user))⟩
    | answer user pair huser =>
        refine hall hs.distinct (fun _ => id) ?_ hregular
        rintro _ ⟨⟩
        exact hkept (fun _ => id) x hx user huser
    | store user r pair hloaded hr =>
        have hstore : ∀ v, Behind s.shared v → Behind
            ⟨s.shared.users.map (storeRow user r), s.shared.minted ++ pairTokens pair, s.shared.now⟩ v := by
          refine fun v hv => hv.store ?_ _
          rw [CurrentOf, hloaded, hr] at hfound
          exact hfound
        refine hall ?_ hstore ?_ hregular
        · rw [List.map_map]
          refine (List.map_congr_left fun row _ => ?_).symm ▸ hs.distinct
          exact storeRow_id user r row
        · rintro _ ⟨⟩
          exact hkept hstore x hx user (by rw [hloaded]; rfl)

/-- Whoever has a token that is accepted has shown the password that stands now. -/
def PasswordKnown (s : System) : Prop :=
  ∀ caller, ∀ token ∈ wallet s caller, ∀ user, (letIn s.shared (.enter (some token)) = some user ∨
    letIn s.shared (.account (.refresh token)) = some user) → Knows s.threads caller user

theorem passwordKnown_of_stamped {s : System} (hs : Stamped s) : PasswordKnown s := by
  intro caller token htoken user hlet
  obtain ⟨y, hy, rfl, hpair⟩ := mem_wallet.mp htoken
  obtain ⟨owner, howner, hsub, hver⟩ := hs.signed y hy token hpair
  have hcase : user ∈ s.shared.users ∧ token.sub = user.id ∧ token.ver = user.tokenVersion := by
    rcases hlet with hlet | hlet
    all_goals
      obtain ⟨hmem, ⟨password, hshows, -⟩ | ⟨t, ht, hid, hv⟩⟩ := letIn_cases hlet
      · cases hshows
      · cases ht
        exact ⟨hmem, hid, hv⟩
  obtain ⟨hmem, hid, hv⟩ := hcase
  exact hs.knows_row hy howner hmem (hid.symm.trans hsub) (hv.symm.trans hver)

/-- A change of the password shuts everybody out who does not know the new one, in every run in
which no request stores a version over one that it has not loaded. -/
theorem password_known (settings : Settings) {d : Directory} (hdistinct : (d.users.map User.id).Nodup)
    {acts : List Act} (h : EachStep (step settings) Current ⟨d, []⟩ acts) :
    Always (step settings) PasswordKnown ⟨d, []⟩ acts :=
  always_of_eachStep (J := Stamped) (fun _ => passwordKnown_of_stamped)
    (fun _ _ _ hs hcurrent hstep => step_stamped hs hcurrent hstep)
    ⟨regular_start d, hdistinct, fun _ h => absurd h List.not_mem_nil⟩ h

end

def anotherPassword : List Act :=
  firstEntry.take 4 ++
    [.arrive 0 (.account (.changePassword (some firstAccess) "password-1" "password-2" "6b28")),
      .advance 1, .advance 1, .arrive 0 (.account (.login "a@b.c" "password-2")), .advance 2, .advance 2]

theorem password_known_anotherPassword :
    letI : Pbkdf2 := salted
    EachStep (step halfHour) Current ⟨empty, []⟩ anotherPassword ∧
      Always (step halfHour) PasswordKnown ⟨empty, []⟩ anotherPassword := by
  let digest : Pbkdf2 := salted
  have h : EachStep (step halfHour) Current ⟨empty, []⟩ anotherPassword := by decide
  exact ⟨h, password_known halfHour (d := empty) List.nodup_nil h⟩

end AgentWeb.SignIn
