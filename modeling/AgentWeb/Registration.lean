import AgentWeb.Accounts
import AgentWeb.Interleaving

namespace AgentWeb.Registration

open Accounts Interleaving PyText Transitions

/-- What a call of `register` may raise. -/
inductive Exc
  | domain (e : Accounts.Error)
  | integrityError
deriving DecidableEq

/-- The id `new_id` makes, and what the caller sends besides the email. -/
structure Request where
  id : Str
  password : Str
  salt : Str
deriving DecidableEq

/-- A call of `register`, each in a session of its own, behind the statement it has
completed. -/
inductive Call
  | arrived (r : Request)
  | adding (user : User)
  | flushed (user : User)
  | returned (user : User)
  | raised (e : Exc)
deriving DecidableEq

/-- The committed rows, and the row that a session has inserted and not yet
committed. -/
structure Database where
  users : List User
  inserted : Option User
deriving DecidableEq

def Database.taken (db : Database) (email : Str) : Bool := db.users.any (·.email = email)

def emailTaken : Exc := .domain (.conflict "email already registered")

abbrev State := Pool Database Call

def start (users : List User) (requests : List Request) : State :=
  ⟨⟨users, none⟩, requests.map .arrived⟩

def isReturned : Call → Bool
  | .returned _ => true
  | _ => false

def isAnswered : Call → Bool
  | .returned _ | .raised _ => true
  | _ => false

def isFlushed : Call → Bool
  | .flushed _ => true
  | _ => false

/-- Nothing is raised but the conflict, no two calls return, and of calls that have
all ended one has returned. -/
structure Clean (s : State) : Prop where
  losers : ∀ e, .raised e ∈ s.threads → e = emailTaken
  winner : s.threads.countP isReturned ≤ 1
  complete : s.threads ≠ [] → (∀ c ∈ s.threads, isAnswered c) → s.threads.countP isReturned = 1

/-- A call that found the email free flushes before another one has committed it. -/
def InTime (s : State) (k : Nat) : Prop :=
  ∀ user, s.threads[k]? = some (.adding user) → s.shared.taken user.email = false

instance (s : State) (k : Nat) : Decidable (InTime s k) :=
  match h : s.threads[k]? with
  | some (.adding user) =>
      decidable_of_iff (s.shared.taken user.email = false) (by simp [InTime, h])
  | some (.arrived _) | some (.flushed _) | some (.returned _) | some (.raised _) | none =>
      .isTrue (by simp [InTime, h])

structure Exclusive (email : Str) (s : State) : Prop where
  adding : ∀ user, .adding user ∈ s.threads → user.email = email
  flushing : ∀ user, .flushed user ∈ s.threads → user.email = email
  inserted : s.threads.countP isFlushed = s.shared.inserted.isSome.toNat
  returned : s.threads.countP isReturned = (s.shared.taken email).toNat
  free : s.shared.inserted.isSome → s.shared.taken email = false
  losers : ∀ e, .raised e ∈ s.threads → e = emailTaken ∧ s.shared.taken email = true

theorem exclusive_start {email : Str} {users : List User} (requests : List Request)
    (hfree : ∀ user ∈ users, user.email ≠ email) : Exclusive email (start users requests) := by
  have harrived : ∀ c ∈ (start users requests).threads, ∃ r, c = .arrived r := by
    intro c hc
    obtain ⟨r, -, rfl⟩ := List.mem_map.mp hc
    exact ⟨r, rfl⟩
  have hcount : ∀ p : Call → Bool, (∀ r, p (.arrived r) = false) →
      (start users requests).threads.countP p = 0 := by
    intro p hp
    rw [List.countP_eq_zero]
    intro c hc
    obtain ⟨r, rfl⟩ := harrived c hc
    simp [hp r]
  have htaken : (start users requests).shared.taken email = false := by
    simpa [Database.taken, start] using hfree
  refine ⟨fun user h => ?_, fun user h => ?_, ?_, ?_, fun h => ?_, fun e h => ?_⟩
  · obtain ⟨r, hr⟩ := harrived _ h
    cases hr
  · obtain ⟨r, hr⟩ := harrived _ h
    cases hr
  · exact hcount isFlushed fun _ => rfl
  · rw [htaken]
    exact hcount isReturned fun _ => rfl
  · cases h
  · obtain ⟨r, hr⟩ := harrived _ h
    cases hr

theorem Exclusive.replace {email : Str} {s : State} {k : Nat} {c c' : Call} (h : Exclusive email s)
    (hk : s.threads[k]? = some c) (hf : isFlushed c = false) (hr : isReturned c = false)
    (hf' : isFlushed c' = false) (hr' : isReturned c' = false)
    (hadding : ∀ user, c' = .adding user → user.email = email)
    (hlost : ∀ e, c' = .raised e → e = emailTaken ∧ s.shared.taken email = true) :
    Exclusive email ⟨s.shared, s.threads.set k c'⟩ := by
  have hflushed := countP_set_add hk c' isFlushed
  have hreturned := countP_set_add hk c' isReturned
  rw [hf, hf'] at hflushed
  rw [hr, hr'] at hreturned
  have hnot : ∀ user, c' = .flushed user → user.email = email := by
    rintro user rfl
    cases hf'
  refine ⟨forall_of_mem_set h.adding hadding, forall_of_mem_set h.flushing hnot, ?_, ?_, h.free,
    forall_of_mem_set h.losers hlost⟩
  · rw [← h.inserted]
    exact hflushed
  · rw [← h.returned]
    exact hreturned

theorem Exclusive.insert {email : Str} {s : State} {k : Nat} {user : User} (h : Exclusive email s)
    (hk : s.threads[k]? = some (.adding user)) (hfree : s.shared.taken email = false)
    (hnone : s.shared.inserted = none) :
    Exclusive email ⟨{ s.shared with inserted := some user }, s.threads.set k (.flushed user)⟩ := by
  have hflushed := countP_set_add hk (.flushed user) isFlushed
  have hreturned := countP_set_add hk (.flushed user) isReturned
  have hinserted := h.inserted
  rw [hnone] at hinserted
  have hemail : ∀ u, Call.flushed user = .flushed u → u.email = email := by
    rintro u ⟨⟩
    exact h.adding user (List.mem_of_getElem? hk)
  refine ⟨forall_of_mem_set h.adding (fun _ hu => by cases hu), forall_of_mem_set h.flushing hemail,
    ?_, ?_, fun _ => hfree, forall_of_mem_set h.losers fun _ he => by cases he⟩
  · rw [hinserted] at hflushed
    exact hflushed
  · exact hreturned.trans h.returned

theorem Exclusive.commit {email : Str} {s : State} {k : Nat} {user : User} (h : Exclusive email s)
    (hk : s.threads[k]? = some (.flushed user)) :
    Exclusive email ⟨⟨s.shared.users ++ [user], none⟩, s.threads.set k (.returned user)⟩ := by
  have hflushed := countP_set_add hk (.returned user) isFlushed
  have hreturned := countP_set_add hk (.returned user) isReturned
  have hpos : 0 < s.threads.countP isFlushed :=
    List.countP_pos_iff.mpr ⟨_, List.mem_of_getElem? hk, rfl⟩
  have hinserted := h.inserted
  have hsome : s.shared.inserted.isSome = true := by
    cases hopt : s.shared.inserted with
    | none =>
        rw [hopt] at hinserted
        rw [hinserted] at hpos
        cases hpos
    | some _ => rfl
  have hfree := h.free hsome
  have htaken : (Database.mk (s.shared.users ++ [user]) none).taken email = true := by
    simp [Database.taken, h.flushing user (List.mem_of_getElem? hk)]
  have hbefore := h.returned
  rw [hsome] at hinserted
  rw [hfree] at hbefore
  have hlosers : ∀ e, .raised e ∈ s.threads → e = emailTaken ∧
      (Database.mk (s.shared.users ++ [user]) none).taken email = true :=
    fun e he => ⟨(h.losers e he).1, htaken⟩
  refine ⟨forall_of_mem_set h.adding (fun _ hu => by cases hu),
    forall_of_mem_set h.flushing (fun _ hu => by cases hu), ?_, ?_, (fun hs => by cases hs),
    forall_of_mem_set hlosers fun _ he => by cases he⟩
  · rw [hinserted] at hflushed
    exact Nat.add_right_cancel hflushed
  · rw [hbefore] at hreturned
    rw [htaken]
    exact hreturned

theorem Exclusive.clean {email : Str} {s : State} (h : Exclusive email s) : Clean s where
  losers e he := (h.losers e he).1
  winner := by
    rw [h.returned]
    exact Bool.toNat_le _
  complete hne hall := by
    obtain ⟨c, hc⟩ := List.exists_mem_of_ne_nil _ hne
    rw [h.returned]
    cases htaken : s.shared.taken email with
    | true => rfl
    | false =>
        have hnone : s.threads.countP isReturned = 0 := by rw [h.returned, htaken]; rfl
        have hlost := hall c hc
        have hnot := List.countP_eq_zero.mp hnone c hc
        cases c with
        | raised e =>
            rw [(h.losers e hc).2] at htaken
            cases htaken
        | returned user => exact absurd rfl hnot
        | arrived | adding | flushed => cases hlost

section Race

variable [Pbkdf2]

/-- The look-up, the flush and the commit. The unique index holds a second insert
back until the first one ends, and then refuses it if the row has been committed. -/
def advance (email : Str) (db : Database) : Call → Option (Database × Call)
  | .arrived r =>
      if db.taken email then some (db, .raised emailTaken)
      else some (db, .adding (register r.id email r.password r.salt))
  | .adding user =>
      if db.taken user.email then some (db, .raised .integrityError)
      else if db.inserted.isSome then none
      else some ({ db with inserted := some user }, .flushed user)
  | .flushed user => some (⟨db.users ++ [user], none⟩, .returned user)
  | .returned _ | .raised _ => none

def step (email : Str) (s : State) (k : Nat) : Option State :=
  s.move (fun db (_ : Unit) c => advance email db c) k ()

theorem step_eq_some {email : Str} {s s' : State} {k : Nat} : step email s k = some s' ↔
    ∃ c db c', s.threads[k]? = some c ∧ advance email s.shared c = some (db, c') ∧
      s' = ⟨db, s.threads.set k c'⟩ :=
  move_eq_some

theorem Exclusive.step_inTime {email : Str} {s s' : State} {k : Nat} (h : Exclusive email s)
    (htime : InTime s k) (hstep : step email s k = some s') : Exclusive email s' := by
  obtain ⟨c, db, c', hk, hadvance, rfl⟩ := step_eq_some.mp hstep
  cases c with
  | arrived r =>
      simp only [advance] at hadvance
      split at hadvance
      next htaken =>
        cases hadvance
        exact h.replace hk rfl rfl rfl rfl (fun _ hu => by cases hu) fun e he => by
          cases he
          exact ⟨rfl, htaken⟩
      next =>
        cases hadvance
        refine h.replace hk rfl rfl rfl rfl (fun user hu => ?_) fun _ he => by cases he
        cases hu
        rfl
  | adding user =>
      have hemail := h.adding user (List.mem_of_getElem? hk)
      have hfree := htime user hk
      rw [hemail] at hfree
      simp only [advance, hemail, hfree] at hadvance
      cases hopt : s.shared.inserted with
      | some other =>
          rw [hopt] at hadvance
          cases hadvance
      | none =>
          rw [hopt] at hadvance
          cases hadvance
          exact h.insert hk hfree hopt
  | flushed user =>
      cases hadvance
      exact h.commit hk
  | returned | raised => cases hadvance

theorem raised_of_late {email : Str} {s s' : State} {k : Nat} {user : User}
    (hk : s.threads[k]? = some (.adding user)) (htaken : s.shared.taken user.email = true)
    (hstep : step email s k = some s') : .raised .integrityError ∈ s'.threads := by
  obtain ⟨c, db, c', hc, hadvance, rfl⟩ := step_eq_some.mp hstep
  cases hk.symm.trans hc
  rw [advance, if_pos htaken] at hadvance
  cases hadvance
  exact mem_set_self hk _

theorem inTime_of_stuck {email : Str} {s : State} {k : Nat} (hstep : step email s k = none) :
    InTime s k := by
  intro user hk
  by_contra htaken
  rw [Bool.not_eq_false] at htaken
  simp [step, Pool.move, hk, advance, htaken] at hstep

/-- A call that has not ended waits at most for one that can go on. -/
theorem exists_step {email : Str} {s : State} (h : Exclusive email s)
    (hopen : ∃ c ∈ s.threads, isAnswered c = false) : ∃ k s', step email s k = some s' := by
  have hmoves : ∀ c ∈ s.threads, (advance email s.shared c).isSome → ∃ k s', step email s k = some s' := by
    intro c hc hsome
    obtain ⟨k, hk⟩ := List.getElem?_of_mem hc
    obtain ⟨m, hm⟩ := Option.isSome_iff_exists.mp hsome
    exact ⟨k, _, step_eq_some.mpr ⟨c, m.1, m.2, hk, hm, rfl⟩⟩
  by_cases hflushed : ∃ user, .flushed user ∈ s.threads
  · obtain ⟨user, hmem⟩ := hflushed
    exact hmoves _ hmem rfl
  · have hnone : s.shared.inserted.isSome = false := by
      have hzero : s.threads.countP isFlushed = 0 := by
        rw [List.countP_eq_zero]
        intro c hc
        cases c with
        | flushed user => exact absurd ⟨user, hc⟩ hflushed
        | _ => exact Bool.false_ne_true
      rw [h.inserted] at hzero
      cases hopt : s.shared.inserted.isSome <;> simp_all
    obtain ⟨c, hc, hrest⟩ := hopen
    refine hmoves c hc ?_
    cases c with
    | arrived r =>
        simp only [advance]
        split <;> rfl
    | adding user =>
        simp only [advance, hnone]
        split <;> rfl
    | flushed user => rfl
    | returned | raised => cases hrest

/-- One winner and clean losers, exactly as long as no call that found the email free
flushes after another one has committed it. -/
theorem registration_clean_iff (email : Str) (users : List User) (requests : List Request)
    (ks : List Nat) (hfree : ∀ user ∈ users, user.email ≠ email) :
    Always (step email) Clean (start users requests) ks ↔
      EachStep (step email) InTime (start users requests) ks := by
  refine always_iff_eachStep (J := Exclusive email) (fun _ h => h.clean)
    (fun _ _ _ h htime hstep => h.step_inTime htime hstep) (fun s k t _ hstep hclean => ?_)
    (fun _ _ => inTime_of_stuck) (exclusive_start requests hfree)
  intro user hk
  by_contra htaken
  rw [Bool.not_eq_false] at htaken
  cases hclean.losers _ (raised_of_late hk htaken hstep)

end Race

def twoRequests : List Request := [⟨"usr_1", "correct horse", "01"⟩, ⟨"usr_2", "battery staple", "02"⟩]

theorem registration_clean_inTurn :
    letI : Pbkdf2 := ⟨fun password salt => password ++ salt⟩
    EachStep (step "ann@example.com") InTime (start [] twoRequests) [0, 0, 0, 1] ∧
      Always (step "ann@example.com") Clean (start [] twoRequests) [0, 0, 0, 1] := by
  let _ : Pbkdf2 := ⟨fun password salt => password ++ salt⟩
  have htime : EachStep (step "ann@example.com") InTime (start [] twoRequests) [0, 0, 0, 1] := by
    decide +kernel
  exact ⟨htime, (registration_clean_iff "ann@example.com" [] twoRequests [0, 0, 0, 1]
    (by simp)).mpr htime⟩

def lateFlush : List Nat := [0, 1, 0, 0, 1]

theorem lateFlush_unclean :
    letI : Pbkdf2 := ⟨fun password salt => password ++ salt⟩
    ¬ Always (step "ann@example.com") Clean (start [] twoRequests) lateFlush := by
  let _ : Pbkdf2 := ⟨fun password salt => password ++ salt⟩
  intro h
  have hrun : (run (step "ann@example.com") (start [] twoRequests) lateFlush).any
      (fun s => s.threads.contains (.raised .integrityError)) = true := by decide +kernel
  obtain ⟨s, hs, hraised⟩ := (Option.any_eq_true _ _).mp hrun
  cases (h.final hs).losers _ (List.contains_iff_mem.mp hraised)

end AgentWeb.Registration
