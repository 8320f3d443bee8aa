import Mathlib.Data.List.Dedup
import Mathlib.Data.List.Infix

namespace AgentWeb.PathResolution

inductive Component (ν : Type)
  | stay
  | up
  | down (name : ν)
deriving DecidableEq

inductive Entry (ν β : Type)
  | file (content : β)
  /-- A device, a socket or a pipe. -/
  | special
  | directory
  | link (absolute : Bool) (target : List (Component ν))

abbrev Tree (ν β : Type) := List (List ν × Entry ν β)

inductive Resolution (ν : Type)
  | found (p : List ν)
  /-- The directory is there, and the name is not. -/
  | absent (p : List ν)
  | failed
deriving DecidableEq

variable {ν β : Type} [DecidableEq ν]

def entryAt (fs : Tree ν β) (p : List ν) : Option (Entry ν β) := fs.lookup p

def walk (fs : Tree ν β) (follow : List ν → List (Component ν) → Resolution ν) :
    List ν → List (Component ν) → Resolution ν
  | dir, [] => .found dir
  | dir, .stay :: rest => walk fs follow dir rest
  | dir, .up :: rest => walk fs follow dir.dropLast rest
  | dir, .down x :: rest =>
      match entryAt fs (dir ++ [x]) with
      | none => if rest.isEmpty then .absent (dir ++ [x]) else .failed
      | some .directory => walk fs follow (dir ++ [x]) rest
      | some (.link absolute target) => follow (if absolute then [] else dir) (target ++ rest)
      | some (.file _) => if rest.isEmpty then .found (dir ++ [x]) else .failed
      | some .special => if rest.isEmpty then .found (dir ++ [x]) else .failed

def resolve (fs : Tree ν β) : Nat → List ν → List (Component ν) → Resolution ν
  | 0 => walk fs fun _ _ => .failed
  | links + 1 => walk fs (resolve fs links)

def fileOf (fs : Tree ν β) : Resolution ν → Option (List ν × β)
  | .found p =>
      match entryAt fs p with
      | some (.file content) => some (p, content)
      | _ => none
  | .absent _ => none
  | .failed => none

def openedAt (fs : Tree ν β) : Resolution ν → Option (List ν)
  | .found p =>
      match entryAt fs p with
      | some (.file _) => some p
      | some .special => some p
      | _ => none
  | .absent p => some p
  | .failed => none

def writeAt (fs : Tree ν β) (p : List ν) (content : β) : Tree ν β :=
  match entryAt fs p with
  | some .special => fs
  | _ => (p, .file content) :: fs

def namesIn (fs : Tree ν β) (dir : List ν) : List ν :=
  (fs.filterMap fun e => if e.1.dropLast = dir then e.1.getLast? else none).dedup

def graft (fs : Tree ν β) (dir : List ν) (below : Tree ν β) : Tree ν β :=
  (below.filter fun e => e.1 ≠ []).map (fun e => (dir ++ e.1, e.2)) ++
    fs.filter fun e => ¬ (dir <+: e.1 ∧ dir ≠ e.1)

/-- A directory that is reached from the root without a link. -/
def Rooted (fs : Tree ν β) (dir : List ν) : Prop := ∀ q, q <+: dir → entryAt fs q = some .directory

variable {fs : Tree ν β} {dir : List ν}

theorem walk_down {follow : List ν → List (Component ν) → Resolution ν} (q : List ν)
    (h : Rooted fs (dir ++ q)) (rest : List (Component ν)) :
    walk fs follow dir (q.map .down ++ rest) = walk fs follow (dir ++ q) rest := by
  induction q generalizing dir with
  | nil => rw [List.map_nil, List.nil_append, List.append_nil]
  | cons x q ih =>
      rw [List.append_cons] at h ⊢
      have hdir : entryAt fs (dir ++ [x]) = some .directory :=
        h _ (List.prefix_append _ q)
      simp only [List.map_cons, List.cons_append, walk, hdir]
      exact ih h

theorem resolve_down (h : Rooted fs dir) (links : Nat) (rest : List (Component ν)) :
    resolve fs links [] (dir.map .down ++ rest) = resolve fs links dir rest := by
  cases links with
  | zero => exact walk_down dir h rest
  | succ links => exact walk_down dir h rest

theorem resolve_entry (h : Rooted fs dir) (links : Nat) {x : ν}
    (hlink : ∀ absolute target, entryAt fs (dir ++ [x]) ≠ some (.link absolute target)) :
    resolve fs links [] (dir.map .down ++ [.down x]) = .found (dir ++ [x]) ∨
      resolve fs links [] (dir.map .down ++ [.down x]) = .absent (dir ++ [x]) := by
  rw [resolve_down h]
  have hwalk (follow : List ν → List (Component ν) → Resolution ν) :
      walk fs follow dir [.down x] = .found (dir ++ [x]) ∨
        walk fs follow dir [.down x] = .absent (dir ++ [x]) := by
    cases hentry : entryAt fs (dir ++ [x]) with
    | none => exact .inr (by simp [walk, hentry])
    | some e =>
        refine .inl ?_
        cases e with
        | file content => simp [walk, hentry]
        | special => simp [walk, hentry]
        | directory => simp [walk, hentry]
        | link absolute target => exact absurd hentry (hlink absolute target)
  cases links with
  | zero => exact hwalk _
  | succ links => exact hwalk _

theorem resolve_stay (h : Rooted fs dir) (links : Nat) :
    resolve fs links [] (dir.map .down ++ [.stay]) = .found dir := by
  rw [resolve_down h]
  cases links <;> rfl

theorem resolve_up (h : Rooted fs dir) (links : Nat) :
    resolve fs links [] (dir.map .down ++ [.up]) = .found dir.dropLast := by
  rw [resolve_down h]
  cases links <;> rfl

theorem absent_of_walk {follow : List ν → List (Component ν) → Resolution ν} {p : List ν}
    (hfollow : ∀ dir rest, follow dir rest = .absent p → entryAt fs p = none)
    {rest : List (Component ν)} (h : walk fs follow dir rest = .absent p) : entryAt fs p = none := by
  induction rest generalizing dir with
  | nil => cases h
  | cons c rest ih =>
      cases c with
      | stay => exact ih h
      | up => exact ih h
      | down x =>
          simp only [walk] at h
          split at h
          next hentry =>
            split at h
            · cases h
              exact hentry
            · cases h
          next => exact ih h
          next => exact hfollow _ _ h
          next => split at h <;> cases h
          next => split at h <;> cases h

theorem absent_of_resolve {links : Nat} {p : List ν} {rest : List (Component ν)}
    (h : resolve fs links dir rest = .absent p) : entryAt fs p = none := by
  induction links generalizing dir rest with
  | zero => exact absent_of_walk (fun _ _ h => by cases h) h
  | succ links ih => exact absent_of_walk (fun _ _ h => ih h) h

theorem entryAt_filter (f : List ν → Bool) {p : List ν} (hp : f p = true) :
    entryAt (fs.filter fun e => f e.1) p = entryAt fs p := by
  induction fs with
  | nil => rfl
  | cons e fs ih =>
      obtain ⟨q, entry⟩ := e
      by_cases hq : p = q
      · subst hq
        simp [entryAt, hp]
      · have hne : (p == q) = false := beq_false_of_ne hq
        simp only [entryAt] at ih ⊢
        by_cases hf : f q = true
        · simp only [List.filter_cons, hf, if_true, List.lookup_cons, hne]
          exact ih
        · simp only [List.filter_cons, hf, Bool.false_eq_true, if_false, List.lookup_cons, hne]
          exact ih

theorem Rooted.graft (h : Rooted fs dir) (below : Tree ν β) : Rooted (graft fs dir below) dir := by
  intro q hq
  have hkeep : ¬ (dir <+: q ∧ dir ≠ q) := fun hbelow =>
    hbelow.2 (hbelow.1.eq_of_length_le hq.length_le)
  have hnew : ((below.filter fun e => e.1 ≠ []).map fun e => (dir ++ e.1, e.2)).lookup q = none := by
    rw [List.lookup_eq_none_iff]
    intro e' he'
    obtain ⟨e, he, rfl⟩ := List.mem_map.mp he'
    rw [List.mem_filter, decide_eq_true_iff] at he
    rw [bne_iff_ne]
    rintro rfl
    refine hkeep ⟨List.prefix_append _ _, fun heq => he.2 ?_⟩
    simpa using heq
  rw [PathResolution.graft, entryAt, List.lookup_append, hnew, Option.none_or]
  exact (entryAt_filter (fun p => decide ¬ (dir <+: p ∧ dir ≠ p)) (decide_eq_true hkeep)).trans
    (h q hq)

theorem Rooted.writeAt (h : Rooted fs dir) {p : List ν}
    (hp : entryAt fs p = none ∨ entryAt fs p = some .special) (content : β) :
    Rooted (writeAt fs p content) dir := by
  obtain hp | hp := hp
  · intro q hq
    have hqp : q ≠ p := by
      rintro rfl
      cases hp.symm.trans (h q hq)
    rw [PathResolution.writeAt, hp, entryAt, List.lookup_cons, beq_false_of_ne hqp]
    exact h q hq
  · rwa [PathResolution.writeAt, hp]

end AgentWeb.PathResolution
