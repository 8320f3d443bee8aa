import Mathlib.Data.List.Infix
import Mathlib.Logic.Function.Basic

namespace AgentWeb.DirectoryTree

/-- A file, or a directory with what it has under a name. -/
inductive Node (ν β : Type)
  | file (content : β)
  | directory (entries : ν → Option (Node ν β))

inductive Errno
  | isDirectory
  | notDirectory
deriving DecidableEq

variable {ν β : Type}

def find : List ν → Option (Node ν β) → Option (Node ν β)
  | [], n => n
  | x :: p, some (.directory entries) => find p (entries x)
  | _ :: _, some (.file _) => none
  | _ :: _, none => none

def fileAt (p : List ν) (n : Option (Node ν β)) : Option β :=
  match find p n with
  | some (.file content) => some content
  | _ => none

def isDirectory (p : List ν) (n : Option (Node ν β)) : Bool :=
  match find p n with
  | some (.directory _) => true
  | _ => false

def empty : Node ν β := .directory fun _ => none

section Operations

variable [DecidableEq ν]

def write : List ν → β → Option (Node ν β) → Except Errno (Node ν β)
  | [], _, some (.directory _) => .error .isDirectory
  | [], content, _ => .ok (.file content)
  | _ :: _, _, some (.file _) => .error .notDirectory
  | x :: p, content, some (.directory entries) =>
      (write p content (entries x)).map fun n => .directory (Function.update entries x (some n))
  | x :: p, content, none =>
      (write p content none).map fun n => .directory (Function.update (fun _ => none) x (some n))

def unlink : List ν → Option (Node ν β) → Except Errno (Option (Node ν β))
  | [], some (.directory _) => .error .isDirectory
  | [], _ => .ok none
  | _ :: _, some (.file _) => .error .notDirectory
  | x :: p, some (.directory entries) =>
      (unlink p (entries x)).map fun n => some (.directory (Function.update entries x n))
  | _ :: _, none => .ok none

end Operations

def Above (q p : List ν) : Prop := q <+: p ∧ q ≠ p

theorem above_nil_right (q : List ν) : ¬ Above q [] := fun h => h.2 (List.prefix_nil.mp h.1)

theorem above_nil_left (x : ν) (p : List ν) : Above [] (x :: p) :=
  ⟨List.nil_prefix, (List.cons_ne_nil x p).symm⟩

theorem above_cons {x y : ν} {q p : List ν} : Above (y :: q) (x :: p) ↔ y = x ∧ Above q p := by
  rw [Above, Above, List.cons_prefix_cons, ne_eq, List.cons.injEq]
  constructor
  · rintro ⟨⟨hxy, hpre⟩, hne⟩
    exact ⟨hxy, hpre, fun heq => hne ⟨hxy, heq⟩⟩
  · rintro ⟨hxy, hpre, hne⟩
    exact ⟨⟨hxy, hpre⟩, fun heq => hne heq.2⟩

@[simp] theorem fileAt_none (p : List ν) : fileAt p (none : Option (Node ν β)) = none := by
  cases p <;> rfl

@[simp] theorem fileAt_cons_file (x : ν) (p : List ν) (content : β) :
    fileAt (x :: p) (some (.file content)) = none := rfl

@[simp] theorem fileAt_cons_directory (x : ν) (p : List ν) (entries : ν → Option (Node ν β)) :
    fileAt (x :: p) (some (.directory entries)) = fileAt p (entries x) := rfl

@[simp] theorem isDirectory_none (p : List ν) : isDirectory p (none : Option (Node ν β)) = false := by
  cases p <;> rfl

@[simp] theorem isDirectory_cons_file (x : ν) (p : List ν) (content : β) :
    isDirectory (x :: p) (some (.file content)) = false := rfl

@[simp] theorem isDirectory_cons_directory (x : ν) (p : List ν) (entries : ν → Option (Node ν β)) :
    isDirectory (x :: p) (some (.directory entries)) = isDirectory p (entries x) := rfl

@[simp] theorem fileAt_empty (p : List ν) : fileAt p (some (empty : Node ν β)) = none := by
  cases p with
  | nil => rfl
  | cons x p => exact fileAt_none p

theorem isDirectory_empty {p : List ν} (h : isDirectory p (some (empty : Node ν β)) = true) :
    p = [] := by
  cases p with
  | nil => rfl
  | cons x p => cases (isDirectory_none p).symm.trans h

theorem fileAt_cons_of {n : Option (Node ν β)} {x : ν} {p : List ν} {entries : ν → Option (Node ν β)}
    (h : n = some (.directory entries) ∨ n = none ∧ entries = fun _ => none) :
    fileAt (x :: p) n = fileAt p (entries x) := by
  obtain rfl | ⟨rfl, rfl⟩ := h
  · rfl
  · rw [fileAt_none, fileAt_none]

theorem isDirectory_cons_of {n : Option (Node ν β)} {x : ν} {p : List ν} {entries : ν → Option (Node ν β)}
    (h : n = some (.directory entries) ∨ n = none ∧ entries = fun _ => none) :
    isDirectory (x :: p) n = isDirectory p (entries x) := by
  obtain rfl | ⟨rfl, rfl⟩ := h
  · rfl
  · rw [isDirectory_none, isDirectory_none]

variable [DecidableEq ν] {p q : List ν} {content : β} {n : Option (Node ν β)} {n' : Node ν β}

theorem write_cons_ok {x : ν} (h : write (x :: p) content n = .ok n') :
    ∃ entries m, (n = some (.directory entries) ∨ n = none ∧ entries = fun _ => none) ∧
      write p content (entries x) = .ok m ∧
      n' = .directory (Function.update entries x (some m)) := by
  cases n with
  | none =>
      cases hm : write p content none with
      | error e => rw [write, hm] at h; cases h
      | ok m =>
          rw [write, hm] at h
          cases h
          exact ⟨_, m, .inr ⟨rfl, rfl⟩, hm, rfl⟩
  | some node =>
      cases node with
      | file old => cases h
      | directory entries =>
          cases hm : write p content (entries x) with
          | error e => rw [write, hm] at h; cases h
          | ok m =>
              rw [write, hm] at h
              cases h
              exact ⟨entries, m, .inl rfl, hm, rfl⟩

theorem fileAt_write (h : write p content n = .ok n') (q : List ν) :
    fileAt q (some n') = if q = p then some content else fileAt q n := by
  induction p generalizing q n n' with
  | nil =>
      have hn' : n' = .file content := by
        cases n with
        | none => cases h; rfl
        | some node => cases node <;> cases h; rfl
      subst hn'
      cases q with
      | nil => rfl
      | cons y q =>
          rw [if_neg (List.cons_ne_nil y q)]
          cases n with
          | none => rfl
          | some node => cases node <;> first | rfl | cases h
  | cons x p ih =>
      obtain ⟨entries, m, hn, hm, rfl⟩ := write_cons_ok h
      cases q with
      | nil =>
          rw [if_neg ((List.cons_ne_nil x p).symm)]
          obtain rfl | ⟨rfl, -⟩ := hn <;> rfl
      | cons y q =>
          rw [fileAt_cons_directory, fileAt_cons_of hn]
          by_cases hy : y = x
          · subst hy
            rw [Function.update_self, ih hm q]
            simp only [List.cons.injEq, true_and]
          · rw [Function.update_of_ne hy, if_neg fun heq => hy (List.cons.inj heq).1]

theorem isDirectory_write (h : write p content n = .ok n') (q : List ν) :
    isDirectory q (some n') = true ↔ isDirectory q n = true ∨ Above q p := by
  induction p generalizing q n n' with
  | nil =>
      have hn' : n' = .file content ∧ isDirectory q n = false := by
        cases n with
        | none => cases h; simp
        | some node =>
            cases node with
            | directory entries => cases h
            | file old => cases h; cases q <;> exact ⟨rfl, rfl⟩
      rw [hn'.1, hn'.2]
      simp only [Bool.false_eq_true, false_or, above_nil_right, iff_false]
      cases q <;> exact Bool.false_ne_true
  | cons x p ih =>
      obtain ⟨entries, m, hn, hm, rfl⟩ := write_cons_ok h
      cases q with
      | nil => exact iff_of_true rfl (.inr (above_nil_left x p))
      | cons y q =>
          rw [isDirectory_cons_directory, isDirectory_cons_of hn, above_cons]
          by_cases hy : y = x
          · subst hy
            rw [Function.update_self, ih hm q]
            simp only [true_and]
          · rw [Function.update_of_ne hy]
            simp only [hy, false_and, or_false]

theorem write_isOk (content : β) (hfile : ∀ q, Above q p → fileAt q n = none)
    (hdir : isDirectory p n = false) : ∃ n', write p content n = .ok n' := by
  induction p generalizing n with
  | nil =>
      cases n with
      | none => exact ⟨_, rfl⟩
      | some node =>
          cases node with
          | file old => exact ⟨_, rfl⟩
          | directory entries => cases hdir
  | cons x p ih =>
      have hstep (entries : ν → Option (Node ν β))
          (hn : n = some (.directory entries) ∨ n = none ∧ entries = fun _ => none) :
          ∃ m, write p content (entries x) = .ok m := by
        refine ih (fun q hq => ?_) ?_
        · rw [← fileAt_cons_of hn]
          exact hfile (x :: q) (above_cons.mpr ⟨rfl, hq⟩)
        · rwa [← isDirectory_cons_of hn]
      cases n with
      | none =>
          obtain ⟨m, hm⟩ := hstep (fun _ => none) (.inr ⟨rfl, rfl⟩)
          exact ⟨_, by rw [write, hm]; rfl⟩
      | some node =>
          cases node with
          | file old => cases hfile [] (above_nil_left x p)
          | directory entries =>
              obtain ⟨m, hm⟩ := hstep entries (.inl rfl)
              exact ⟨_, by rw [write, hm]; rfl⟩

theorem write_directory (content : β) (hdir : isDirectory p n = true) :
    write p content n = .error .isDirectory := by
  induction p generalizing n with
  | nil =>
      cases n with
      | none => cases hdir
      | some node =>
          cases node with
          | file old => cases hdir
          | directory entries => rfl
  | cons x p ih =>
      cases n with
      | none => cases hdir
      | some node =>
          cases node with
          | file old => cases hdir
          | directory entries => rw [write, ih hdir]; rfl

theorem unlink_ok {r : Option (Node ν β)} (h : unlink p n = .ok r) (q : List ν) :
    fileAt q r = (if q = p then none else fileAt q n) ∧
      (isDirectory q r = true → isDirectory q n = true) := by
  induction p generalizing q n r with
  | nil =>
      have hr : r = none := by
        cases n with
        | none => cases h; rfl
        | some node => cases node <;> cases h; rfl
      subst hr
      refine ⟨?_, fun hdir => by cases (isDirectory_none q).symm.trans hdir⟩
      rw [fileAt_none]
      cases q with
      | nil => rfl
      | cons y q =>
          rw [if_neg (List.cons_ne_nil y q)]
          cases n with
          | none => rfl
          | some node => cases node <;> first | rfl | cases h
  | cons x p ih =>
      cases n with
      | none =>
          cases h
          refine ⟨?_, id⟩
          rw [fileAt_none, ite_self]
      | some node =>
          cases node with
          | file old => cases h
          | directory entries =>
              cases hm : unlink p (entries x) with
              | error e => rw [unlink, hm] at h; cases h
              | ok m =>
                  rw [unlink, hm] at h
                  cases h
                  cases q with
                  | nil => exact ⟨rfl, id⟩
                  | cons y q =>
                      rw [fileAt_cons_directory, fileAt_cons_directory, isDirectory_cons_directory,
                        isDirectory_cons_directory]
                      by_cases hy : y = x
                      · subst hy
                        rw [Function.update_self]
                        simp only [List.cons.injEq, true_and]
                        exact ih hm q
                      · rw [Function.update_of_ne hy, if_neg fun heq => hy (List.cons.inj heq).1]
                        exact ⟨rfl, id⟩

theorem unlink_isOk (hfile : ∀ q, Above q p → fileAt q n = none) (hdir : isDirectory p n = false) :
    ∃ r, unlink p n = .ok r := by
  induction p generalizing n with
  | nil =>
      cases n with
      | none => exact ⟨_, rfl⟩
      | some node =>
          cases node with
          | file old => exact ⟨_, rfl⟩
          | directory entries => cases hdir
  | cons x p ih =>
      cases n with
      | none => exact ⟨_, rfl⟩
      | some node =>
          cases node with
          | file old => cases hfile [] (above_nil_left x p)
          | directory entries =>
              obtain ⟨m, hm⟩ := ih (n := entries x)
                (fun q hq => hfile (x :: q) (above_cons.mpr ⟨rfl, hq⟩)) hdir
              exact ⟨_, by rw [unlink, hm]; rfl⟩

end AgentWeb.DirectoryTree
