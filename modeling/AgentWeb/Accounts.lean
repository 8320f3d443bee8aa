import AgentWeb.PyText

namespace AgentWeb.Accounts

open PyText

/-- `hashlib.pbkdf2_hmac` of a password and a salt, in hexadecimal digits. -/
class Pbkdf2 where
  digest : Str → Str → Str

inductive Error
  | conflict (detail : Str)
  | unauthorized (detail : Str)
  | forbidden (detail : Str)
deriving DecidableEq

structure User where
  id : Str
  email : Str
  passwordHash : Str
  isActive : Bool := true
  tokenVersion : Nat := 0
deriving DecidableEq

inductive Kind
  | access
  | refresh
deriving DecidableEq

def Kind.name : Kind → Str
  | .access => "access"
  | .refresh => "refresh"

structure Token where
  sub : Str
  kind : Kind
  exp : Int
  ver : Nat
deriving DecidableEq

structure Settings where
  accessTokenSeconds : Int
  refreshTokenSeconds : Int

structure Account where
  user : User
  minted : List Token := []
  now : Int
deriving DecidableEq

section

variable [Pbkdf2]

def hashPassword (password salt : Str) : Str := salt ++ "$" ++ Pbkdf2.digest password salt

def verifyPassword (password stored : Str) : Bool :=
  if 36 ∈ stored then
    let salt := stored.takeWhile (· != 36)
    let expected := (stored.dropWhile (· != 36)).tail
    Pbkdf2.digest password salt = expected
  else false

def register (id email password salt : Str) : User :=
  { id := id, email := email, passwordHash := hashPassword password salt }

def createAccessToken (settings : Settings) (now : Int) (userId : Str) (tokenVersion : Nat) : Token :=
  ⟨userId, .access, now + settings.accessTokenSeconds, tokenVersion⟩

def createRefreshToken (settings : Settings) (now : Int) (userId : Str) (tokenVersion : Nat) : Token :=
  ⟨userId, .refresh, now + settings.refreshTokenSeconds, tokenVersion⟩

def tokenPair (settings : Settings) (now : Int) (user : User) : Token × Token :=
  (createAccessToken settings now user.id user.tokenVersion,
    createRefreshToken settings now user.id user.tokenVersion)

/-- `decode_token`: only what this service has signed passes the signature check. -/
def decodeToken (a : Account) (token : Token) (expectedType : Kind) : Except Str Token :=
  if token ∉ a.minted then .error "Signature verification failed"
  else if token.exp ≤ a.now then .error "Signature has expired"
  else if token.kind ≠ expectedType then .error ("expected " ++ expectedType.name ++ " token")
  else .ok token

def login (a : Account) (email password : Str) : Except Error User :=
  if a.user.email ≠ email ∨ verifyPassword password a.user.passwordHash = false then
    .error (.unauthorized "invalid email or password")
  else if a.user.isActive = false then .error (.forbidden "account disabled")
  else .ok a.user

def userOfToken (a : Account) (token : Token) (expectedType : Kind) : Except Error User :=
  match decodeToken a token expectedType with
  | .error exc => .error (.unauthorized ("invalid token: " ++ exc))
  | .ok payload =>
      if a.user.id ≠ payload.sub ∨ a.user.isActive = false then
        .error (.unauthorized "unknown or inactive user")
      else if payload.ver ≠ a.user.tokenVersion then .error (.unauthorized "token revoked")
      else .ok a.user

def userForAccessToken (a : Account) : Option Token → Except Error User
  | none => .error (.unauthorized "missing bearer token")
  | some token => userOfToken a token .access

def userForRefreshToken (a : Account) (token : Token) : Except Error User :=
  userOfToken a token .refresh

/-- The row that a session stores which loaded `user`, where only the column
that it has set is written. -/
def revokeAllTokens (user row : User) : User :=
  { row with tokenVersion := user.tokenVersion + 1 }

def changePassword (user row : User) (oldPassword newPassword salt : Str) : Except Error User :=
  if verifyPassword oldPassword user.passwordHash = false then
    .error (.unauthorized "current password is incorrect")
  else .ok { row with
    passwordHash := hashPassword newPassword salt, tokenVersion := user.tokenVersion + 1 }

omit [Pbkdf2] in
theorem userOfToken_ver {a : Account} {token : Token} {kind : Kind} {user : User}
    (h : userOfToken a token kind = .ok user) : user = a.user ∧ token.ver = a.user.tokenVersion := by
  rw [userOfToken] at h
  cases hdecode : decodeToken a token kind with
  | error exc =>
      rw [hdecode] at h
      cases h
  | ok payload =>
      have hsame : payload = token := by
        simp only [decodeToken] at hdecode
        split_ifs at hdecode
        exact (Except.ok.inj hdecode).symm
      rw [hdecode] at h
      simp only at h
      split_ifs at h with _ hver
      exact ⟨(Except.ok.inj h).symm, hsame ▸ not_not.mp hver⟩

omit [Pbkdf2] in
theorem userForAccessToken_user {a : Account} {token : Option Token} {user : User}
    (h : userForAccessToken a token = .ok user) : user = a.user := by
  cases token with
  | none => cases h
  | some token => exact (userOfToken_ver h).1

theorem login_user {a : Account} {email password : Str} {user : User}
    (h : login a email password = .ok user) : user = a.user := by
  rw [login] at h
  split_ifs at h
  exact (Except.ok.inj h).symm

end

end AgentWeb.Accounts
