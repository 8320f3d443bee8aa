import AgentWeb.PyText

namespace AgentWeb.EventSource

open PyText

/-- What the handler of an event source is called with. -/
structure Message where
  type : Str
  data : Str
  lastEventId : Str
  deriving DecidableEq

/-- The buffers of an event source, what it has dispatched and the id it reconnects
with. -/
structure Source where
  line : Str := []
  afterCR : Bool := false
  type : Str := []
  data : Str := []
  id : Str := []
  lastEventId : Str := []
  messages : List Message := []

def field (line : Str) : Str × Str :=
  let value := (line.dropWhile (· ≠ 58)).tail
  (line.takeWhile (· ≠ 58), if value.head? = some 32 then value.tail else value)

def dispatch (s : Source) : Source :=
  let s := { s with lastEventId := s.id }
  if s.data = [] then { s with type := [] }
  else { s with
    type := []
    data := []
    messages := s.messages ++
      [⟨if s.type = [] then str "message" else s.type,
        if s.data.getLast? = some 10 then s.data.dropLast else s.data, s.lastEventId⟩] }

def processLine (s : Source) (line : Str) : Source :=
  if line = [] then dispatch s
  else if line.head? = some 58 then s
  else
    let name := (field line).1
    let value := (field line).2
    if name = str "event" then { s with type := value }
    else if name = str "data" then { s with data := s.data ++ value ++ [10] }
    else if name = str "id" then (if 0 ∈ value then s else { s with id := value })
    else s

/-- A line ends with a newline, a carriage return or both. -/
def step (s : Source) (c : Nat) : Source :=
  if c = 10 ∧ s.afterCR then { s with afterCR := false }
  else if c = 10 ∨ c = 13 then
    processLine { s with line := [], afterCR := c = 13 } s.line
  else { s with line := s.line ++ [c], afterCR := false }

def receive (s : Source) (text : Str) : Source := text.foldl step s

theorem receive_append (s : Source) (t u : Str) : receive s (t ++ u) = receive (receive s t) u :=
  List.foldl_append

theorem receive_plain {s : Source} (hcr : s.afterCR = false) {t : Str}
    (ht : ∀ c ∈ t, c ≠ 10 ∧ c ≠ 13) : receive s t = { s with line := s.line ++ t } := by
  induction t generalizing s with
  | nil =>
      rw [List.append_nil]
      rfl
  | cons c t ih =>
      have hc := ht c (by simp)
      have hstep : step s c = { s with line := s.line ++ [c] } := by
        rw [step, if_neg (by simp [hc]), if_neg (by simp [hc]), ← hcr]
      rw [receive, List.foldl_cons, hstep]
      refine (ih (s := { s with line := s.line ++ [c] }) hcr fun d hd => ht d (by simp [hd])).trans ?_
      simp

theorem receive_line {s : Source} (hcr : s.afterCR = false) {t : Str}
    (ht : ∀ c ∈ t, c ≠ 10 ∧ c ≠ 13) :
    receive s (t ++ [10]) = processLine { s with line := [] } (s.line ++ t) := by
  rw [receive_append, receive_plain hcr ht]
  simp [receive, step, hcr]

structure Settled (s : Source) : Prop where
  line : s.line = []
  afterCR : s.afterCR = false
  type : s.type = []
  data : s.data = []
  id : s.id = s.lastEventId

/-- A new connection begins with the id that the last one has left. -/
def reconnect (s : Source) : Source :=
  { s with line := [], afterCR := false, type := [], data := [], id := s.lastEventId }

theorem settled_reconnect (s : Source) : Settled (reconnect s) := ⟨rfl, rfl, rfl, rfl, rfl⟩

theorem prefix_append_cases {α : Type*} {p a b : List α} (h : p <+: a ++ b) :
    p <+: a ∨ ∃ q, p = a ++ q ∧ q <+: b := by
  obtain ⟨t, ht⟩ := h
  rcases List.append_eq_append_iff.mp ht with ⟨q, ha, -⟩ | ⟨q, hp, hb⟩
  · exact .inl ⟨q, ha.symm⟩
  · exact .inr ⟨q, hp, t, hb.symm⟩

theorem field_named (name value : Str) (h : 58 ∉ name) :
    field (name ++ 58 :: 32 :: value) = (name, value) := by
  have hall : ∀ c ∈ name, decide (c ≠ 58) = true := by
    intro c hc
    simp only [ne_eq, decide_eq_true_eq]
    rintro rfl
    exact h hc
  rw [field, List.takeWhile_append_of_pos hall, List.dropWhile_append_of_pos hall]
  simp

theorem receive_within {s : Source} (hline : s.line = []) (hcr : s.afterCR = false) {t : Str}
    (hne : t ≠ []) (ht : ∀ c ∈ t, c ≠ 10 ∧ c ≠ 13) {p : Str} (hp : p <+: t ++ [10]) :
    (receive s p).messages = s.messages ∧ (receive s p).lastEventId = s.lastEventId := by
  rcases prefix_append_cases hp with hp | ⟨q, rfl, hq⟩
  · rw [receive_plain hcr fun c hc => ht c (hp.subset hc)]
    exact ⟨rfl, rfl⟩
  · rcases List.prefix_cons_iff.mp hq with rfl | ⟨u, rfl, hnil⟩
    · rw [List.append_nil, receive_plain hcr ht]
      exact ⟨rfl, rfl⟩
    · rw [List.prefix_nil.mp hnil, receive_line hcr ht, hline, List.nil_append, processLine, if_neg hne]
      simp only
      split_ifs <;> exact ⟨rfl, rfl⟩

end AgentWeb.EventSource
