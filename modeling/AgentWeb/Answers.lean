import AgentWeb.Recognition
import AgentWeb.Rendering
import AgentWeb.Transitions

namespace AgentWeb.Answers

open PyText PyFloat PyJson Protocol OnLine Transitions

def isJsSpace (c : Nat) : Bool :=
  (9 ≤ c && c ≤ 13) || c == 32 || c == 0xA0 || c == 0x1680 || (0x2000 ≤ c && c ≤ 0x200A) ||
    c == 0x2028 || c == 0x2029 || c == 0x202F || c == 0x205F || c == 0x3000 || c == 0xFEFF

def trim (s : Str) : Str := (s.dropWhile isJsSpace).rdropWhile isJsSpace

def jsTruthy : Json → Bool
  | .null => false
  | .bool b => b
  | .int i => i != 0
  | .float .nan => false
  | .float x => !isZero x
  | .str s => s != []
  | .arr _ | .obj _ => true

/-- `for (const x of value || [])`. Only texts and lists can be gone through. -/
def itemsOf (value : Json) : Option (List Json) :=
  match value with
  | .arr xs => some xs
  | .str s => some (s.map fun c => .str [c])
  | v => if jsTruthy v then none else some []

def property (value : Json) (key : Str) : Json :=
  match value with
  | .obj d => fetch d key
  | _ => .null

/-- `x || y`, where nothing is a null. -/
def jsOr (x y : Json) : Json := if jsTruthy x then x else y

def hasText (value : Json) : Bool := (Rendering.jsText value).isSome

def optionShown : Json → Bool
  | .null => false
  | .str _ => true
  | o => hasText (jsOr (property o "label") (.str []))

def questionShown : Json → Bool
  | .null => false
  | q => hasText (jsOr (property q "question") (jsOr (property q "text") (.str []))) &&
      (itemsOf (property q "options")).any (·.all optionShown)

structure Form where
  askId : Json
  inputs : List Str
  disabled : Bool

/-- The form of `addAsk`, which is put into the page when all of it has been built. -/
def addAsk (data : Json) : Option Form :=
  match itemsOf (property data "questions") with
  | none => none
  | some questions =>
      if questions.all questionShown then
        some ⟨Recognition.askId data, questions.map fun _ => [], false⟩
      else none

/-- `.map((i) => i.value.trim()).filter(Boolean)`. -/
def answersOf (inputs : List Str) : List Str := (inputs.map trim).filter (· ≠ [])

/-- The `op:answer` that is written to the sandbox. -/
structure Op where
  answers : List Str
  askId : Option Str

/-- `deliver_answer` of the controller and of the runner: without an id from the caller it
is the last one remembered. -/
def deliverAnswer (run : ActiveRun) (answers : List Str) (askId : Option Str) : Op :=
  let askId := if askId.all (· = []) then run.pendingAskId else askId
  ⟨answers, askId.filter (· ≠ [])⟩

/-- An answer on its way, with the form as it was when it was sent. -/
structure Request where
  index : Nat
  form : Form
  answers : List Str

structure State where
  run : ActiveRun
  asks : List Json
  forms : List Form
  requests : List Request
  written : List (Op × Form)

def State.initial (runId : Str) (tokenAllowance : Option Int) : State :=
  ⟨.initial runId tokenAllowance, [], [], [], []⟩

/-- The agent asks, the browser shows an ask, live or replayed, the user fills and sends a
form, and the server delivers what was sent or refuses it. -/
inductive Act
  | ask (data : Json)
  | render (ask : Nat)
  | fill (form input : Nat) (text : Str)
  | send (form : Nat)
  | deliver (request : Nat) (ok : Bool)

def enable (disabled : Bool) (form : Form) : Form := { form with disabled := disabled }

section

variable [Interpreter]

def step (s : State) : Act → Option State
  | .ask data => some { s with run := rememberAsk s.run data, asks := s.asks ++ [data] }
  | .render ask => (s.asks[ask]?).map fun data =>
      { s with forms := s.forms ++ (addAsk data).toList }
  | .fill form input text => (s.forms[form]?).map fun f =>
      { s with forms := s.forms.set form { f with inputs := f.inputs.set input text } }
  | .send form => (s.forms[form]?).bind fun f =>
      if f.disabled then none
      else if answersOf f.inputs = [] then some s
      else some { s with
        forms := s.forms.set form (enable true f)
        requests := s.requests ++ [⟨form, f, answersOf f.inputs⟩] }
  | .deliver request ok => (s.requests[request]?).map fun r =>
      if ok then { s with
        requests := s.requests.eraseIdx request
        -- the browser sends no id
        written := s.written ++ [(deliverAnswer s.run r.answers none, r.form)] }
      else { s with
        requests := s.requests.eraseIdx request
        forms := s.forms.modify r.index (enable false) }

def Names (id : Option Str) (askId : Json) : Prop :=
  match id with
  | none => truthy askId = false
  | some id => askId = .str id

/-- The op is for the ask that the form was rendered for, and each of its answers is the
reply to the question in its place. -/
def Reaches (op : Op) (form : Form) : Prop :=
  Names op.askId form.askId ∧ ∀ (i : Nat) (answer : Str), op.answers[i]? = some answer →
    (form.inputs[i]?).map trim = some answer

def AnswersReach (s : State) : Prop := ∀ w ∈ s.written, Reaches w.1 w.2

def Gapless (inputs : List Str) : Prop := inputs.Pairwise fun a b => trim a = [] → trim b = []

/-- What is delivered answers the ask remembered last, from its first question on. -/
def OnTime (s : State) : Act → Prop
  | .deliver request true => ∀ r, s.requests[request]? = some r →
      Names (s.run.pendingAskId.filter (· ≠ [])) r.form.askId ∧ Gapless r.form.inputs
  | _ => True

omit [Interpreter] in
theorem filter_prefix_iff {α : Type} (p : α → Bool) (xs : List α) :
    xs.filter p <+: xs ↔ xs.Pairwise fun a b => p a = false → p b = false := by
  induction xs with
  | nil => simp
  | cons x xs ih =>
      rw [List.pairwise_cons]
      cases hp : p x with
      | true =>
          rw [List.filter_cons_of_pos hp, List.cons_prefix_cons, ih]
          simp
      | false =>
          rw [List.filter_cons_of_neg (by simp [hp])]
          have hnone : xs.filter p <+: x :: xs ↔ ∀ b ∈ xs, p b = false := by
            constructor
            · intro h b hb
              by_contra hpb
              cases hf : xs.filter p with
              | nil => exact hpb (by simpa using List.filter_eq_nil_iff.mp hf b hb)
              | cons y ys =>
                  rw [hf, List.cons_prefix_cons] at h
                  have hy : p y = true := (List.mem_filter.mp (hf ▸ List.mem_cons_self)).2
                  rw [h.1, hp] at hy
                  cases hy
            · intro h
              rw [List.filter_eq_nil_iff.mpr fun b hb => by simp [h b hb]]
              exact List.nil_prefix
          rw [hnone]
          constructor
          · intro h
            exact ⟨fun b hb _ => h b hb, List.pairwise_of_forall_mem_list fun _ _ b hb _ => h b hb⟩
          · exact fun h b hb => h.1 b hb rfl

omit [Interpreter] in
theorem answersOf_iff (inputs : List Str) :
    (∀ (i : Nat) (answer : Str), (answersOf inputs)[i]? = some answer →
      (inputs[i]?).map trim = some answer) ↔ Gapless inputs := by
  have hpre := filter_prefix_iff (fun t : Str => decide (t ≠ [])) (inputs.map trim)
  rw [List.pairwise_map] at hpre
  simp only [decide_eq_false_iff_not, ne_eq, not_not] at hpre
  rw [Gapless, ← hpre, List.prefix_iff_getElem?]
  simp only [← List.getElem?_map]
  constructor
  · intro h i hi
    exact h i _ (List.getElem?_eq_getElem hi)
  · intro h i answer hanswer
    obtain ⟨hi, rfl⟩ := List.getElem?_eq_some_iff.mp hanswer
    exact h i hi

omit [Interpreter] in
theorem reaches_iff (run : ActiveRun) (form : Form) :
    Reaches (deliverAnswer run (answersOf form.inputs) none) form ↔
      Names (run.pendingAskId.filter (· ≠ [])) form.askId ∧ Gapless form.inputs := by
  rw [Reaches, ← answersOf_iff]
  rfl

def Faithful (s : State) : Prop := ∀ r ∈ s.requests, r.answers = answersOf r.form.inputs

theorem step_faithful {s t : State} {act : Act} (hs : Faithful s) (h : step s act = some t) :
    Faithful t := by
  cases act with
  | ask data =>
      cases h
      exact hs
  | render ask =>
      obtain ⟨data, -, rfl⟩ := Option.map_eq_some_iff.mp h
      exact hs
  | fill form input text =>
      obtain ⟨f, -, rfl⟩ := Option.map_eq_some_iff.mp h
      exact hs
  | send form =>
      obtain ⟨f, -, hf⟩ := Option.bind_eq_some_iff.mp h
      split_ifs at hf
      · cases hf
        exact hs
      · cases hf
        exact List.forall_mem_append.mpr ⟨hs, by simp⟩
  | deliver request ok =>
      obtain ⟨r, -, rfl⟩ := Option.map_eq_some_iff.mp h
      intro r' hr'
      refine hs r' (List.mem_of_mem_eraseIdx (i := request) ?_)
      cases ok <;> exact hr'

theorem step_written {s t : State} {act : Act} (h : step s act = some t) :
    t.written = s.written ∨ ∃ request r, act = .deliver request true ∧ s.requests[request]? = some r ∧
      t.written = s.written ++ [(deliverAnswer s.run r.answers none, r.form)] := by
  cases act with
  | ask data =>
      cases h
      exact .inl rfl
  | render ask =>
      obtain ⟨data, -, rfl⟩ := Option.map_eq_some_iff.mp h
      exact .inl rfl
  | fill form input text =>
      obtain ⟨f, -, rfl⟩ := Option.map_eq_some_iff.mp h
      exact .inl rfl
  | send form =>
      obtain ⟨f, -, hf⟩ := Option.bind_eq_some_iff.mp h
      split_ifs at hf <;> cases hf <;> exact .inl rfl
  | deliver request ok =>
      obtain ⟨r, hr, rfl⟩ := Option.map_eq_some_iff.mp h
      cases ok with
      | true => exact .inr ⟨request, r, rfl, hr, rfl⟩
      | false => exact .inl rfl

/-- Every answer reaches its question exactly when each is delivered while the question is
the last one asked, and leaves no question out before one that it answers. -/
theorem answersReach_iff (runId : Str) (tokenAllowance : Option Int) (acts : List Act) :
    Always step AnswersReach (.initial runId tokenAllowance) acts ↔
      EachStep step OnTime (.initial runId tokenAllowance) acts := by
  refine always_iff_eachStep (J := fun s => Faithful s ∧ AnswersReach s) (fun s h => h.2) ?_ ?_ ?_
    ⟨by simp [Faithful, State.initial], by simp [AnswersReach, State.initial]⟩
  · rintro s act t ⟨hf, hw⟩ hgood h
    refine ⟨step_faithful hf h, ?_⟩
    rcases step_written h with hsame | ⟨request, r, rfl, hr, hnew⟩
    · rwa [AnswersReach, hsame]
    · rw [AnswersReach, hnew, List.forall_mem_append]
      refine ⟨hw, ?_⟩
      rw [List.forall_mem_singleton, hf r (List.mem_of_getElem? hr), reaches_iff]
      exact hgood r hr
  · rintro s act t ⟨hf, -⟩ h hw
    cases act with
    | deliver request ok =>
        cases ok with
        | false => trivial
        | true =>
            intro r hr
            obtain ⟨r', hr', rfl⟩ := Option.map_eq_some_iff.mp h
            cases hr.symm.trans hr'
            have hreach := hw _ (List.mem_append_right _ (List.mem_singleton_self _))
            rwa [hf r (List.mem_of_getElem? hr), reaches_iff] at hreach
    | _ => trivial
  · intro s act h
    cases act with
    | deliver request ok =>
        cases ok with
        | false => trivial
        | true =>
            intro r hr
            simp [step, hr] at h
    | _ => trivial

end

def askData (askId : Str) : Json :=
  .obj [(str "ask_id", .str askId),
    (str "questions", .arr [.obj [(str "question", .str (str "name?"))]])]

/-- A reply that is sent when the next question has been asked already is delivered as the
reply to that one. -/
theorem not_answersReach_late :
    ¬ ∀ [Interpreter] (runId : Str) (tokenAllowance : Option Int) (acts : List Act),
      Always step AnswersReach (.initial runId tokenAllowance) acts := by
  intro h
  let tables : Interpreter := asciiTables
  have hrun := (h "r1" none [.ask (askData "a1"), .render 0, .ask (askData "a2"), .fill 0 0 "blue",
    .send 0, .deliver 0 true]).final rfl
  have hlate := (hrun _ (List.mem_singleton_self _)).1
  cases hlate

end AgentWeb.Answers
