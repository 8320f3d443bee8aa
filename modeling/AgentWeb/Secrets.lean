import AgentWeb.Interleaving
import AgentWeb.PyText
import Mathlib.Data.List.Nodup

namespace AgentWeb.Secrets

open PyText Transitions Interleaving

structure Secret where
  id : Str
  userId : Str
  name : Str
  valueEncrypted : Str

structure Cipher where
  encrypt : Str → Str → Str
  decrypt : Str → Str
  decrypt_encrypt : ∀ nonce value, decrypt (encrypt nonce value) = value

def isEnvHead (c : Nat) : Bool := (65 ≤ c && c ≤ 90) || c == 95 || (97 ≤ c && c ≤ 122)

/-- `_ENV_NAME.match`, where `$` also stands before a last newline. -/
def isEnvName (name : Str) : Bool :=
  let body := if name.getLast? = some 10 then name.dropLast else name
  match body with
  | [] => false
  | c :: cs => isEnvHead c && cs.all fun c => isEnvHead c || (48 ≤ c && c ≤ 57)

def addRow (cipher : Cipher) (userId : Str) (env : Str → Option Str) (row : Secret) :
    Str → Option Str :=
  if row.userId = userId ∧ isEnvName row.name then
    Function.update env row.name (some (cipher.decrypt row.valueEncrypted))
  else env

/-- `decrypt_for_user`: a later row of a name replaces an earlier one. -/
def decryptForUser (cipher : Cipher) (userId : Str) (rows : List Secret) : Str → Option Str :=
  rows.foldl (addRow cipher userId) fun _ => none

inductive Request
  | put (value : Str)
  | delete

inductive Stage
  | begun
  | found (id : Str)
  | missing
  | returned
  deriving DecidableEq

structure Thread where
  request : Request
  stage : Stage

/-- The table, with the request that has committed last. -/
structure Store where
  rows : List Secret
  last : Option Request

/-- What is drawn for a step: which of several rows comes first, and the values that
`uuid4` and the encryption draw. -/
structure Draw where
  first : Nat
  id : Str
  nonce : Str

structure Key where
  userId : Str
  name : Str

def Key.isOf (key : Key) (row : Secret) : Bool := row.userId == key.userId && row.name == key.name

def Key.rows (key : Key) (rows : List Secret) : List Secret := rows.filter key.isOf

variable (cipher : Cipher) (key : Key)

def insert (g : Store) (draw : Draw) (value : Str) : Store :=
  if g.rows.any (·.id == draw.id) then g
  else ⟨g.rows ++ [⟨draw.id, key.userId, key.name, cipher.encrypt draw.nonce value⟩],
    some (.put value)⟩

def overwrite (id encrypted : Str) (row : Secret) : Secret :=
  if row.id = id then { row with valueEncrypted := encrypted } else row

def update (g : Store) (draw : Draw) (id value : Str) : Store :=
  if g.rows.any (·.id == id) then
    ⟨g.rows.map (overwrite id (cipher.encrypt draw.nonce value)), some (.put value)⟩
  else g

def remove (g : Store) (id : Str) : Store := ⟨g.rows.filter (·.id ≠ id), some .delete⟩

def advance (g : Store) (draw : Draw) (th : Thread) : Option (Store × Thread) :=
  match th.stage, th.request with
  | .begun, request =>
      if key.rows g.rows = [] then
        some (g, ⟨request, match request with | .put _ => .missing | .delete => .returned⟩)
      else ((key.rows g.rows)[draw.first]?).map fun row => (g, ⟨request, .found row.id⟩)
  | .missing, .put value => some (insert cipher key g draw value, ⟨th.request, .returned⟩)
  | .found id, .put value => some (update cipher g draw id value, ⟨th.request, .returned⟩)
  | .found id, .delete => some (remove g id, ⟨th.request, .returned⟩)
  | _, _ => none

abbrev State := Pool Store Thread

inductive Act
  | arrive (request : Request)
  | advance (thread : Nat) (draw : Draw)

def step (s : State) : Act → Option State
  | .arrive request => some { s with threads := s.threads ++ [⟨request, .begun⟩] }
  | .advance k draw => s.move (advance cipher key) k draw

/-- The table before the first request: its primary keys differ, and no row is of the
name. -/
structure Others where
  rows : List Secret
  distinct : (rows.map Secret.id).Nodup
  other : key.rows rows = []

def initial (others : Others key) : State := ⟨⟨others.rows, none⟩, []⟩

/-- In whatever order the rows are read, the name has the value put last, and none when it
was deleted last. -/
def Holds (s : State) : Prop :=
  match s.shared.last with
  | none => True
  | some (.put value) => ∀ rows, rows.Perm s.shared.rows →
      decryptForUser cipher key.userId rows key.name = some value
  | some .delete => ∀ rows, rows.Perm s.shared.rows →
      decryptForUser cipher key.userId rows key.name = none

def Settled (s : State) : Prop := ∀ th ∈ s.threads, th.stage = .returned

/-- A put commits where each other row of the name has its value already, and a delete
where there is no other row. -/
def ClearAt (rows : List Secret) (draw : Draw) (th : Thread) : Prop :=
  match th.stage, th.request with
  | .missing, .put value => rows.any (·.id == draw.id) = false →
      ∀ row ∈ key.rows rows, cipher.decrypt row.valueEncrypted = value
  | .found id, .put value => rows.any (·.id == id) →
      ∀ row ∈ key.rows rows, row.id ≠ id → cipher.decrypt row.valueEncrypted = value
  | .found id, .delete => ∀ row ∈ key.rows rows, row.id = id
  | _, _ => True

def Clear (s : State) : Act → Prop
  | .arrive _ => True
  | .advance k draw => ∀ th, s.threads[k]? = some th → ClearAt cipher key s.shared.rows draw th

instance decidableClearAt (rows : List Secret) (draw : Draw) :
    (th : Thread) → Decidable (ClearAt cipher key rows draw th)
  | ⟨.put value, .missing⟩ => inferInstanceAs (Decidable (rows.any (·.id == draw.id) = false →
      ∀ row ∈ key.rows rows, cipher.decrypt row.valueEncrypted = value))
  | ⟨.put value, .found id⟩ => inferInstanceAs (Decidable (rows.any (·.id == id) = true →
      ∀ row ∈ key.rows rows, row.id ≠ id → cipher.decrypt row.valueEncrypted = value))
  | ⟨.delete, .found id⟩ => inferInstanceAs (Decidable (∀ row ∈ key.rows rows, row.id = id))
  | ⟨.delete, .missing⟩ | ⟨.put _, .begun⟩ | ⟨.delete, .begun⟩ | ⟨.put _, .returned⟩
  | ⟨.delete, .returned⟩ => .isTrue trivial

instance decidableClear (s : State) : (act : Act) → Decidable (Clear cipher key s act)
  | .arrive _ => .isTrue trivial
  | .advance k draw => match h : s.threads[k]? with
    | none => .isTrue fun th hth => by simp [h] at hth
    | some th => decidable_of_iff (ClearAt cipher key s.shared.rows draw th) (by simp [Clear, h])

instance decidableSettled (s : State) : Decidable (Settled s) :=
  inferInstanceAs (Decidable (∀ th ∈ s.threads, th.stage = .returned))

variable {cipher key}

@[simp] theorem isOf_iff {row : Secret} : key.isOf row ↔ row.userId = key.userId ∧ row.name = key.name := by
  simp [Key.isOf]

theorem mem_rows {rows : List Secret} {row : Secret} :
    row ∈ key.rows rows ↔ row ∈ rows ∧ key.isOf row := List.mem_filter

theorem decryptForUser_eq (hname : isEnvName key.name) (rows : List Secret) :
    decryptForUser cipher key.userId rows key.name =
      ((key.rows rows).getLast?).map fun row => cipher.decrypt row.valueEncrypted := by
  induction rows using List.reverseRecOn with
  | nil => rfl
  | append_singleton rows row ih =>
      rw [decryptForUser, List.foldl_append, List.foldl_cons, List.foldl_nil, Key.rows,
        List.filter_append, ← decryptForUser, addRow]
      by_cases hrow : key.isOf row
      · obtain ⟨huser, hrowName⟩ := isOf_iff.mp hrow
        rw [if_pos ⟨huser, by rwa [hrowName]⟩, hrowName, Function.update_self]
        simp [hrow]
      · rw [List.filter_cons_of_neg hrow, List.filter_nil, List.append_nil]
        split
        next h =>
          have hne : key.name ≠ row.name := fun hn => hrow (isOf_iff.mpr ⟨h.1, hn.symm⟩)
          rw [Function.update_of_ne hne]
          exact ih
        next => exact ih

theorem exists_perm_concat {rows : List Secret} {row : Secret} (h : row ∈ rows) :
    ∃ others, (others ++ [row]).Perm rows := by
  obtain ⟨before, after, rfl⟩ := List.append_of_mem h
  exact ⟨before ++ after, List.perm_append_singleton _ _ |>.trans List.perm_middle.symm⟩

theorem Key.rows_perm (key : Key) {rows rows' : List Secret} (h : rows.Perm rows') :
    (key.rows rows).Perm (key.rows rows') := h.filter _

def View (cipher : Cipher) (key : Key) (rows : List Secret) : Option Request → Prop
  | some (.put value) => key.rows rows ≠ [] ∧
      ∀ row ∈ key.rows rows, cipher.decrypt row.valueEncrypted = value
  | _ => key.rows rows = []

theorem holds_put_iff (hname : isEnvName key.name) (rows : List Secret) (value : Str) :
    (∀ order, order.Perm rows → decryptForUser cipher key.userId order key.name = some value) ↔
      View cipher key rows (some (.put value)) := by
  simp only [decryptForUser_eq hname, View]
  constructor
  · intro h
    refine ⟨fun hnil => ?_, fun row hrow => ?_⟩
    · have hsome := h rows (List.Perm.refl rows)
      rw [hnil] at hsome
      cases hsome
    · obtain ⟨hmem, hof⟩ := mem_rows.mp hrow
      obtain ⟨others, hperm⟩ := exists_perm_concat hmem
      have hlast := h _ hperm
      simpa [Key.rows, hof] using hlast
  · rintro ⟨hne, hall⟩ order hperm
    have hperm' := key.rows_perm hperm
    have hne' : key.rows order ≠ [] := fun hnil => hne (by rwa [hnil, List.nil_perm] at hperm')
    rw [List.getLast?_eq_getLast_of_ne_nil hne', Option.map_some,
      hall _ (hperm'.subset (List.getLast_mem hne'))]

theorem holds_delete_iff (hname : isEnvName key.name) (rows : List Secret) :
    (∀ order, order.Perm rows → decryptForUser cipher key.userId order key.name = none) ↔
      View cipher key rows (some .delete) := by
  simp only [decryptForUser_eq hname, View, Option.map_eq_none_iff, List.getLast?_eq_none_iff]
  constructor
  · exact fun h => h rows (List.Perm.refl rows)
  · intro h order hperm
    have hperm' := key.rows_perm hperm
    rwa [h, List.perm_nil] at hperm'

theorem holds_of_view (hname : isEnvName key.name) {s : State}
    (h : View cipher key s.shared.rows s.shared.last) : Holds cipher key s := by
  rw [Holds]
  split
  next => trivial
  next value hlast =>
    rw [hlast] at h
    exact (holds_put_iff hname _ value).mpr h
  next hlast =>
    rw [hlast] at h
    exact (holds_delete_iff hname _).mpr h

theorem view_of_holds (hname : isEnvName key.name) {s : State} (hlast : s.shared.last ≠ none)
    (h : Holds cipher key s) : View cipher key s.shared.rows s.shared.last := by
  rw [Holds] at h
  split at h
  next hnone => exact absurd hnone hlast
  next value hput =>
    rw [hput]
    exact (holds_put_iff hname _ value).mp h
  next hdelete =>
    rw [hdelete]
    exact (holds_delete_iff hname _).mp h

theorem view_insert (rows : List Secret) (id nonce value : Str) :
    View cipher key (rows ++ [⟨id, key.userId, key.name, cipher.encrypt nonce value⟩])
        (some (.put value)) ↔
      ∀ row ∈ key.rows rows, cipher.decrypt row.valueEncrypted = value := by
  have hrows : key.rows (rows ++ [⟨id, key.userId, key.name, cipher.encrypt nonce value⟩]) =
      key.rows rows ++ [⟨id, key.userId, key.name, cipher.encrypt nonce value⟩] := by
    simp [Key.rows]
  rw [View, hrows, List.forall_mem_append]
  simp [cipher.decrypt_encrypt]

theorem rows_overwrite (rows : List Secret) (id encrypted : Str) :
    key.rows (rows.map (overwrite id encrypted)) = (key.rows rows).map (overwrite id encrypted) := by
  rw [Key.rows, List.filter_map]
  congr 2
  funext row
  rw [Function.comp_apply, overwrite]
  split <;> rfl

theorem view_update {rows : List Secret} {id : Str} (nonce value : Str)
    (hrow : ∃ row ∈ key.rows rows, row.id = id) :
    View cipher key (rows.map (overwrite id (cipher.encrypt nonce value))) (some (.put value)) ↔
      ∀ row ∈ key.rows rows, row.id ≠ id → cipher.decrypt row.valueEncrypted = value := by
  obtain ⟨row, hmem, -⟩ := hrow
  rw [View, rows_overwrite, List.forall_mem_map]
  have hne : (key.rows rows).map (overwrite id (cipher.encrypt nonce value)) ≠ [] := by
    simpa using List.ne_nil_of_mem hmem
  simp only [hne, ne_eq, not_false_eq_true, true_and]
  refine forall₂_congr fun row _ => ?_
  by_cases hid : row.id = id
  · simp [overwrite, hid, cipher.decrypt_encrypt]
  · simp [overwrite, hid]

theorem view_remove (rows : List Secret) (id : Str) :
    View cipher key (rows.filter (·.id ≠ id)) (some .delete) ↔
      ∀ row ∈ key.rows rows, row.id = id := by
  simp only [View]
  rw [Key.rows, List.filter_filter, List.filter_eq_nil_iff, Key.rows]
  simp only [List.mem_filter]
  constructor
  · rintro h row ⟨hmem, hof⟩
    simpa [hof] using h row hmem
  · intro h row hmem hrow
    simp only [Bool.and_eq_true, decide_eq_true_eq] at hrow
    exact hrow.2 (h row ⟨hmem, hrow.1⟩)

/-- The rows are those of the last commit, their keys differ, and what a request has found
is of the name as long as it is there. -/
structure Inv (cipher : Cipher) (key : Key) (s : State) : Prop where
  distinct : (s.shared.rows.map Secret.id).Nodup
  found : ∀ (k : Nat) (th : Thread), s.threads[k]? = some th → ∀ id, th.stage = .found id →
    ∀ row ∈ s.shared.rows, row.id = id → key.isOf row
  view : View cipher key s.shared.rows s.shared.last

inductive Effect (cipher : Cipher) (key : Key) (g : Store) (draw : Draw) (th : Thread) :
    Store → Stage → Prop
  | quiet (stage : Stage) (hclear : ClearAt cipher key g.rows draw th)
      (hfound : ∀ id, stage = .found id → ∃ row ∈ key.rows g.rows, row.id = id) :
      Effect cipher key g draw th g stage
  | insert (value : Str) (hstage : th.stage = .missing) (hrequest : th.request = .put value)
      (hnew : g.rows.any (·.id == draw.id) = false) :
      Effect cipher key g draw th
        ⟨g.rows ++ [⟨draw.id, key.userId, key.name, cipher.encrypt draw.nonce value⟩],
          some (.put value)⟩ .returned
  | update (id value : Str) (hstage : th.stage = .found id) (hrequest : th.request = .put value)
      (hrow : g.rows.any (·.id == id)) :
      Effect cipher key g draw th
        ⟨g.rows.map (overwrite id (cipher.encrypt draw.nonce value)), some (.put value)⟩ .returned
  | remove (id : Str) (hstage : th.stage = .found id) (hrequest : th.request = .delete) :
      Effect cipher key g draw th ⟨g.rows.filter (·.id ≠ id), some .delete⟩ .returned

theorem effect_of_advance {g g' : Store} {draw : Draw} {th th' : Thread}
    (h : advance cipher key g draw th = some (g', th')) :
    ∃ stage, th'.stage = stage ∧ Effect cipher key g draw th g' stage := by
  rcases th with ⟨request, stage⟩
  cases stage with
  | begun =>
      have hclear : ClearAt cipher key g.rows draw ⟨request, .begun⟩ := by cases request <;> trivial
      simp only [advance] at h
      split at h
      next =>
        cases h
        refine ⟨_, rfl, .quiet _ hclear fun id hid => ?_⟩
        cases request <;> cases hid
      next =>
        obtain ⟨row, hrow, hpair⟩ := Option.map_eq_some_iff.mp h
        cases hpair
        refine ⟨_, rfl, .quiet _ hclear fun id hid => ?_⟩
        cases hid
        exact ⟨row, List.mem_of_getElem? hrow, rfl⟩
  | found id =>
      cases request with
      | put value =>
          simp only [advance, update] at h
          split at h
          next hrow =>
            cases h
            exact ⟨_, rfl, .update id value rfl rfl hrow⟩
          next hrow =>
            cases h
            exact ⟨_, rfl, .quiet _ (fun h => absurd h hrow) fun id hid => by cases hid⟩
      | delete =>
          cases h
          exact ⟨_, rfl, .remove id rfl rfl⟩
  | missing =>
      cases request with
      | put value =>
          simp only [advance, insert] at h
          split at h
          next hrow =>
            cases h
            exact ⟨_, rfl, .quiet _ (fun h => absurd hrow (by simp [h])) fun id hid => by cases hid⟩
          next hnew =>
            cases h
            exact ⟨_, rfl, .insert value rfl rfl (by simpa using hnew)⟩
      | delete => cases h
  | returned => cases h

theorem inv_initial (others : Others key) : Inv cipher key (initial key others) where
  distinct := others.distinct
  found k th hk := by simp [initial] at hk
  view := others.other

theorem Effect.rows {g g' : Store} {draw : Draw} {th : Thread} {stage : Stage}
    (h : Effect cipher key g draw th g' stage) (hd : (g.rows.map Secret.id).Nodup) :
    (g'.rows.map Secret.id).Nodup ∧ ∀ row ∈ g'.rows, key.isOf row ∨
      ∃ row' ∈ g.rows, row'.id = row.id ∧ (key.isOf row' → key.isOf row) := by
  cases h with
  | quiet stage _ => exact ⟨hd, fun row hrow => .inr ⟨row, hrow, rfl, id⟩⟩
  | insert value _ _ hnew =>
      refine ⟨?_, fun row hrow => ?_⟩
      · rw [List.map_append, List.map_singleton, List.nodup_append]
        refine ⟨hd, by simp, ?_⟩
        simpa using hnew
      · rcases mem_append_singleton.mp hrow with hrow | rfl
        · exact .inr ⟨row, hrow, rfl, id⟩
        · exact .inl (isOf_iff.mpr ⟨rfl, rfl⟩)
  | update id value _ _ _ =>
      have hid (encrypted : Str) (row : Secret) : (overwrite id encrypted row).id = row.id := by
        rw [overwrite]
        split <;> rfl
      refine ⟨?_, fun row hrow => ?_⟩
      · have hids : (g.rows.map (overwrite id (cipher.encrypt draw.nonce value))).map Secret.id =
            g.rows.map Secret.id := by
          rw [List.map_map]
          exact List.map_congr_left fun row _ => hid _ row
        rwa [hids]
      · obtain ⟨row', hrow', rfl⟩ := List.mem_map.mp hrow
        refine .inr ⟨row', hrow', (hid _ row').symm, fun hof => ?_⟩
        rw [overwrite]
        split <;> exact hof
  | remove id _ _ =>
      exact ⟨hd.sublist (List.filter_sublist.map _),
        fun row hrow => .inr ⟨row, List.mem_of_mem_filter hrow, rfl, fun hof => hof⟩⟩

theorem exists_row {s : State} (hs : Inv cipher key s) {k : Nat} {th : Thread}
    (hk : s.threads[k]? = some th) {id : Str} (hstage : th.stage = .found id)
    (hrow : s.shared.rows.any (·.id == id)) : ∃ row ∈ key.rows s.shared.rows, row.id = id := by
  obtain ⟨row, hmem, hid⟩ := List.any_eq_true.mp hrow
  have hid : row.id = id := eq_of_beq hid
  exact ⟨row, mem_rows.mpr ⟨hmem, hs.found k th hk id hstage row hmem hid⟩, hid⟩

/-- Where a request is committed, the rows are those of that commit exactly when the step
was clear. -/
theorem Effect.view_iff {s : State} (hs : Inv cipher key s) {k : Nat} {draw : Draw} {th : Thread}
    (hk : s.threads[k]? = some th) {g : Store} {stage : Stage}
    (h : Effect cipher key s.shared draw th g stage) :
    View cipher key g.rows g.last ↔ Clear cipher key s (.advance k draw) := by
  have hclear : Clear cipher key s (.advance k draw) ↔ ClearAt cipher key s.shared.rows draw th := by
    simp [Clear, hk]
  rw [hclear]
  cases h with
  | quiet _ hquiet => exact iff_of_true hs.view hquiet
  | insert value hstage hrequest hnew =>
      rw [view_insert]
      simp only [ClearAt, hstage, hrequest, hnew, forall_const]
  | update id value hstage hrequest hrow =>
      rw [view_update _ _ (exists_row hs hk hstage hrow)]
      simp only [ClearAt, hstage, hrequest, hrow, forall_const]
  | remove id hstage hrequest =>
      rw [view_remove]
      simp only [ClearAt, hstage, hrequest]

theorem step_inv {s t : State} {act : Act} (hs : Inv cipher key s) (hclear : Clear cipher key s act)
    (h : step cipher key s act = some t) : Inv cipher key t := by
  cases act with
  | arrive request =>
      cases h
      refine ⟨hs.distinct, fun k th hk id hstage => ?_, hs.view⟩
      rcases getElem?_append_cases hk with ⟨-, rfl⟩ | hk
      · cases hstage
      · exact hs.found k th hk id hstage
  | advance k draw =>
      obtain ⟨th, g, th', hk, hadvance, rfl⟩ := move_eq_some.mp h
      obtain ⟨stage, hth', heffect⟩ := effect_of_advance hadvance
      obtain ⟨hdistinct, hrows⟩ := heffect.rows hs.distinct
      refine ⟨hdistinct, fun i thi hi id hstage row hrow hid => ?_,
        (heffect.view_iff hs hk).mpr hclear⟩
      rcases getElem?_set_cases hi with ⟨rfl, rfl⟩ | ⟨-, hi⟩
      · rw [hth'] at hstage
        cases heffect with
        | quiet _ _ hfound =>
            obtain ⟨row', hrow', hid'⟩ := hfound id hstage
            obtain ⟨hmem, hof⟩ := mem_rows.mp hrow'
            rwa [← List.inj_on_of_nodup_map hs.distinct hmem hrow (hid'.trans hid.symm)]
        | insert => cases hstage
        | update => cases hstage
        | remove => cases hstage
      · rcases hrows row hrow with hof | ⟨row', hrow', hid', hof⟩
        · exact hof
        · exact hof (hs.found i thi hi id hstage row' hrow' (hid'.trans hid))

/-- The secrets are a map at every moment exactly when each put commits where no other row
of the name has another value, and each delete where there is no other row. -/
theorem holds_iff (hname : isEnvName key.name) (others : Others key) (acts : List Act) :
    Always (step cipher key) (Holds cipher key) (initial key others) acts ↔
      EachStep (step cipher key) (Clear cipher key) (initial key others) acts := by
  refine always_iff_eachStep (J := Inv cipher key) (fun s h => holds_of_view hname h.view)
    (fun s act t hs hclear h => step_inv hs hclear h) ?_ ?_ (inv_initial others)
  · intro s act t hs h hholds
    cases act with
    | arrive request => trivial
    | advance k draw =>
        obtain ⟨th, g, th', hk, hadvance, rfl⟩ := move_eq_some.mp h
        obtain ⟨stage, -, heffect⟩ := effect_of_advance hadvance
        rw [← heffect.view_iff hs hk]
        cases heffect with
        | quiet => exact hs.view
        | insert => exact view_of_holds hname (by simp) hholds
        | update => exact view_of_holds hname (by simp) hholds
        | remove => exact view_of_holds hname (by simp) hholds
  · intro s act h
    cases act with
    | arrive request => trivial
    | advance k draw =>
        intro th hk
        simp only [step, Pool.move, hk, Option.bind_some, Option.map_eq_none_iff] at h
        rcases th with ⟨request, stage⟩
        cases stage <;> cases request <;> trivial

def plain : Cipher := ⟨fun _ value => value, id, fun _ _ => rfl⟩

def token : Key := ⟨"u1", "TOKEN"⟩

def noOthers : Others token := ⟨[], List.nodup_nil, rfl⟩

/-- A put, and a delete that comes after it. -/
theorem holds_iff_inTurn : Always (step plain token) (Holds plain token) (initial token noOthers)
    [.arrive (.put "a"), .advance 0 ⟨0, "s1", []⟩, .advance 0 ⟨0, "s1", []⟩, .arrive .delete,
      .advance 1 ⟨0, [], []⟩, .advance 1 ⟨0, [], []⟩] := by
  exact (holds_iff (by decide) noOthers _).mpr (by decide)

/-- Two first puts leave two rows, of which a delete takes one. -/
theorem not_holds_twoPuts :
    ¬ ∀ (cipher : Cipher) (key : Key) (others : Others key) (acts : List Act) (s : State),
      isEnvName key.name → run (step cipher key) (initial key others) acts = some s → Settled s →
      Holds cipher key s := by
  intro h
  have hdeleted := h plain token noOthers
    [.arrive (.put "a"), .arrive (.put "b"), .advance 0 ⟨0, [], []⟩, .advance 1 ⟨0, [], []⟩,
      .advance 0 ⟨0, "s1", []⟩, .advance 1 ⟨0, "s2", []⟩, .arrive .delete, .advance 2 ⟨0, [], []⟩,
      .advance 2 ⟨0, [], []⟩] _ (by decide) rfl (by decide)
  have hleft := hdeleted _ (List.Perm.refl _)
  cases hleft

end AgentWeb.Secrets
