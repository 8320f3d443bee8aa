import AgentWeb.Accounts
import AgentWeb.Interleaving

namespace AgentWeb.Revocation

open PyText Accounts Interleaving Transitions

inductive Request
  | login (email password : Str)
  | refresh (refreshToken : Token)
  | revokeAllTokens (accessToken : Option Token)
  | changePassword (accessToken : Option Token) (oldPassword newPassword salt : Str)
deriving DecidableEq

inductive Thread
  | arrived (r : Request)
  /-- The session has loaded the user. -/
  | loaded (r : Request) (user : User)
  /-- The session has stored the next version, behind which these tokens are. -/
  | committed (earlier : List Token)
  | returned (earlier : List Token)
  | answered (pair : Option (Token × Token))
deriving DecidableEq

abbrev System := Pool Account Thread

inductive Act
  | arrive (r : Request)
  | advance (k : Nat)
  | tick (now : Int)
deriving DecidableEq

section

variable [Pbkdf2]

def loads (a : Account) : Request → Except Error User
  | .login email password => login a email password
  | .refresh token => userForRefreshToken a token
  | .revokeAllTokens token => userForAccessToken a token
  | .changePassword token _ _ _ => userForAccessToken a token

def stores (user row : User) : Request → Option User
  | .login _ _ => none
  | .refresh _ => none
  | .revokeAllTokens _ => some (revokeAllTokens user row)
  | .changePassword _ oldPassword newPassword salt =>
      (changePassword user row oldPassword newPassword salt).toOption

def mints (settings : Settings) (now : Int) (user : User) : Request → Option (Token × Token)
  | .login _ _ => some (tokenPair settings now user)
  | .refresh _ => some (tokenPair settings now user)
  | .revokeAllTokens _ => none
  | .changePassword _ _ _ _ => none

def pairTokens (pair : Option (Token × Token)) : List Token :=
  pair.elim [] fun p => [p.1, p.2]

def advance (settings : Settings) (a : Account) (_ : Unit) : Thread → Option (Account × Thread)
  | .arrived r =>
      match loads a r with
      | .error _ => some (a, .answered none)
      | .ok user => some (a, .loaded r user)
  | .loaded r user =>
      match stores user a.user r with
      | some row => some ({ a with user := row }, .committed a.minted)
      | none =>
          let pair := mints settings a.now user r
          some ({ a with minted := a.minted ++ pairTokens pair }, .answered pair)
  | .committed earlier => some (a, .returned earlier)
  | .returned _ => none
  | .answered _ => none

def step (settings : Settings) (s : System) : Act → Option System
  | .arrive r => some { s with threads := s.threads ++ [.arrived r] }
  | .advance k => s.move (advance settings) k ()
  | .tick now => some { s with shared := { s.shared with now := now } }

def System.registered (settings : Settings) (now : Int) (id email password salt : Str) : System :=
  let user := register id email password salt
  ⟨{ user := user, minted := pairTokens (some (tokenPair settings now user)), now := now }, []⟩

def Accepted (a : Account) (token : Token) : Prop :=
  (∃ user, userForAccessToken a (some token) = .ok user) ∨
    ∃ user, userForRefreshToken a token = .ok user

/-- Once a revocation has returned, no token from before its commit is accepted. -/
def Revoked (s : System) : Prop :=
  ∀ earlier, Thread.returned earlier ∈ s.threads → ∀ token ∈ earlier, ¬ Accepted s.shared token

/-- A request that stores a version finds the one there that it has loaded. -/
def CurrentAt (a : Account) : Thread → Prop
  | .loaded r user => (stores user a.user r).isSome → a.user.tokenVersion = user.tokenVersion
  | _ => True

def Current (s : System) : Act → Prop
  | .advance k => ∀ th ∈ s.threads[k]?, CurrentAt s.shared th
  | _ => True

instance (a : Account) : (th : Thread) → Decidable (CurrentAt a th)
  | .loaded _ _ => inferInstanceAs (Decidable (_ → _))
  | .arrived _ | .committed _ | .returned _ | .answered _ => .isTrue trivial

instance (s : System) : (act : Act) → Decidable (Current s act)
  | .advance _ => inferInstanceAs (Decidable (∀ th ∈ _, _))
  | .arrive _ | .tick _ => .isTrue trivial

theorem loads_user {a : Account} {r : Request} {user : User} (h : loads a r = .ok user) :
    user = a.user := by
  cases r with
  | login email password => exact login_user h
  | refresh token => exact (userOfToken_ver h).1
  | revokeAllTokens token => exact userForAccessToken_user h
  | changePassword token oldPassword newPassword salt => exact userForAccessToken_user h

theorem stores_version {user row row' : User} {r : Request} (h : stores user row r = some row') :
    row'.tokenVersion = user.tokenVersion + 1 := by
  cases r with
  | login email password => cases h
  | refresh token => cases h
  | revokeAllTokens token =>
      cases h
      rfl
  | changePassword token oldPassword newPassword salt =>
      simp only [stores, changePassword] at h
      split at h
      · cases h
      · cases h
        rfl

omit [Pbkdf2] in
theorem pairTokens_mints {settings : Settings} {now : Int} {user : User} {r : Request} :
    ∀ token ∈ pairTokens (mints settings now user r), token.ver = user.tokenVersion := by
  have hpair : ∀ token ∈ pairTokens (some (tokenPair settings now user)),
      token.ver = user.tokenVersion := by
    intro token h
    simp only [pairTokens, Option.elim_some, List.mem_cons, List.not_mem_nil, or_false] at h
    rcases h with rfl | rfl <;> rfl
  cases r with
  | login email password => exact hpair
  | refresh token => exact hpair
  | revokeAllTokens token => exact fun token h => absurd h List.not_mem_nil
  | changePassword token oldPassword newPassword salt =>
      exact fun token h => absurd h List.not_mem_nil

def Sound (a : Account) : Thread → Prop
  | .loaded _ user => user.tokenVersion ≤ a.user.tokenVersion
  | .committed earlier => ∀ token ∈ earlier, token.ver < a.user.tokenVersion
  | .returned earlier => ∀ token ∈ earlier, token.ver < a.user.tokenVersion
  | _ => True

def versions : Outline Account Thread where
  whole a := ∀ token ∈ a.minted, token.ver ≤ a.user.tokenVersion
  each := Sound
  two _ _ := True
  symm _ _ _ := trivial

omit [Pbkdf2] in
theorem Sound.mono {a b : Account} {th : Thread} (h : Sound a th)
    (hle : a.user.tokenVersion ≤ b.user.tokenVersion) : Sound b th := by
  cases th with
  | arrived r => trivial
  | loaded r user => exact Nat.le_trans h hle
  | committed earlier => exact fun token hmem => Nat.lt_of_lt_of_le (h token hmem) hle
  | returned earlier => exact fun token hmem => Nat.lt_of_lt_of_le (h token hmem) hle
  | answered pair => trivial

theorem advance_sound {settings : Settings} {a b : Account} {th th' : Thread}
    (hwhole : versions.whole a) (hth : Sound a th)
    (hcurrent : CurrentAt a th)
    (h : advance settings a () th = some (b, th')) :
    versions.whole b ∧ Sound b th' ∧ a.user.tokenVersion ≤ b.user.tokenVersion := by
  cases th with
  | arrived r =>
      cases hload : loads a r with
      | error e =>
          simp only [advance, hload] at h
          cases h
          exact ⟨hwhole, trivial, Nat.le_refl _⟩
      | ok user =>
          simp only [advance, hload] at h
          cases h
          exact ⟨hwhole, (congrArg User.tokenVersion (loads_user hload)).le, Nat.le_refl _⟩
  | loaded r user =>
      cases hstore : stores user a.user r with
      | none =>
          simp only [advance, hstore] at h
          cases h
          refine ⟨?_, trivial, Nat.le_refl _⟩
          refine List.forall_mem_append.mpr ⟨hwhole, fun token hmem => ?_⟩
          rw [pairTokens_mints token hmem]
          exact hth
      | some row =>
          have hsame := hcurrent (by rw [hstore]; rfl)
          have hnext := stores_version hstore
          simp only [advance, hstore] at h
          cases h
          refine ⟨fun token hmem => ?_, fun token hmem => ?_, ?_⟩
          · have hle := hwhole token hmem
            simp only
            omega
          · have hle := hwhole token hmem
            simp only
            omega
          · simp only
            omega
  | committed earlier =>
      cases h
      exact ⟨hwhole, hth, Nat.le_refl _⟩
  | returned earlier => cases h
  | answered pair => cases h

theorem step_versions {settings : Settings} {s t : System} {act : Act} (hs : Meets versions s)
    (hcurrent : Current s act) (h : step settings s act = some t) : Meets versions t := by
  cases act with
  | arrive r =>
      cases h
      exact hs.arrive hs.whole trivial fun a _ ha => ⟨ha, trivial⟩
  | advance k =>
      obtain ⟨th, b, th', hk, hadvance, rfl⟩ := move_eq_some.mp h
      obtain ⟨hwhole, heach, hle⟩ := advance_sound hs.whole (hs.each k th hk)
        (hcurrent th hk) hadvance
      exact hs.move hk hwhole heach fun j a _ _ ha _ => ⟨Sound.mono ha hle, trivial⟩
  | tick now =>
      cases h
      exact ⟨hs.whole, fun i th hi => (hs.each i th hi).mono (Nat.le_refl _), hs.two⟩

theorem registered_versions (settings : Settings) (now : Int) (id email password salt : Str) :
    Meets versions (System.registered settings now id email password salt) := by
  refine ⟨fun token h => ?_, fun i th hi => ?_, fun i j a b _ hi => ?_⟩
  · have hver := pairTokens_mints (r := .login email password) token h
    exact hver.le
  · simp [System.registered] at hi
  · simp [System.registered] at hi

omit [Pbkdf2] in
theorem accepted_ver {a : Account} {token : Token} (h : Accepted a token) :
    token.ver = a.user.tokenVersion := by
  rcases h with ⟨user, h⟩ | ⟨user, h⟩
  · exact (userOfToken_ver h).2
  · exact (userOfToken_ver h).2

omit [Pbkdf2] in
theorem revoked_of_versions {s : System} (h : Meets versions s) : Revoked s := by
  intro earlier hmem token htoken haccepted
  obtain ⟨i, hi⟩ := List.getElem?_of_mem hmem
  have hlt := h.each i _ hi token htoken
  have hver := accepted_ver haccepted
  omega

/-- Revocation kills every earlier token in every run in which no request stores
its version over one that it has not loaded. -/
theorem revoked_of_current (settings : Settings) (now : Int) (id email password salt : Str)
    (acts : List Act)
    (h : EachStep (step settings) Current (System.registered settings now id email password salt)
      acts) :
    Always (step settings) Revoked (System.registered settings now id email password salt) acts :=
  always_of_eachStep (J := Meets versions) (fun _ => revoked_of_versions)
    (fun _ _ _ hs hg hstep => step_versions hs hg hstep)
    (registered_versions settings now id email password salt) h

end

abbrev salted : Pbkdf2 := ⟨fun password salt => password ++ salt⟩

def halfHour : Settings := ⟨1800, 1209600⟩

def registered : System :=
  letI : Pbkdf2 := salted
  .registered halfHour 0 "usr_1" "a@b.c" "password-1" "5a17"

def firstAccess : Token := ⟨"usr_1", .access, 1800, 0⟩

def relogin : List Act :=
  [.arrive (.revokeAllTokens (some firstAccess)), .advance 0, .advance 0, .advance 0,
    .arrive (.login "a@b.c" "password-1"), .advance 1, .advance 1]

theorem revoked_of_current_relogin :
    letI : Pbkdf2 := salted
    EachStep (step halfHour) Current registered relogin ∧
      Always (step halfHour) Revoked registered relogin := by
  let digest : Pbkdf2 := salted
  have h : EachStep (step halfHour) Current registered relogin := by decide
  exact ⟨h, revoked_of_current halfHour 0 "usr_1" "a@b.c" "password-1" "5a17" relogin h⟩

/-- Two logouts load version 0. The user logs in anew when one of them has
returned, and the other one stores version 1 again. -/
def twoLogouts : List Act :=
  [.arrive (.revokeAllTokens (some firstAccess)), .arrive (.revokeAllTokens (some firstAccess)),
    .advance 0, .advance 1, .advance 0, .advance 0, .arrive (.login "a@b.c" "password-1"),
    .advance 2, .advance 2, .advance 1, .advance 1]

theorem not_revoked_twoLogouts :
    ¬ ∀ [Pbkdf2] (settings : Settings) (now : Int) (id email password salt : Str)
      (acts : List Act), Always (step settings) Revoked
        (System.registered settings now id email password salt) acts := by
  intro h
  let digest : Pbkdf2 := salted
  obtain ⟨s, earlier, hr, hthread, htoken, huser⟩ : ∃ s earlier,
      run (step halfHour) registered twoLogouts = some s ∧
      s.threads[1]? = some (.returned earlier) ∧ ⟨"usr_1", .access, 1800, 1⟩ ∈ earlier ∧
      userForAccessToken s.shared (some ⟨"usr_1", .access, 1800, 1⟩) = .ok s.shared.user :=
    ⟨_, _, rfl, rfl, by decide, rfl⟩
  have hrevoked := (h halfHour 0 _ _ _ _ _).final hr
  exact hrevoked earlier (List.mem_of_getElem? hthread) _ htoken (.inl ⟨_, huser⟩)

end AgentWeb.Revocation
