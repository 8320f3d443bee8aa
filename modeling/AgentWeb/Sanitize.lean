import AgentWeb.Replay

namespace AgentWeb.Sanitize

open PyText PyFloat PyJson Protocol Replay

def escapeChar (c : Nat) : Str :=
  if c = 34 ∨ c = 92 then [92, c]
  else if c = 8 then str "\\b" else if c = 9 then str "\\t" else if c = 10 then str "\\n"
  else if c = 12 then str "\\f" else if c = 13 then str "\\r"
  else if c < 32 then str "\\u" ++ hex 4 c
  else [c]

def dumpsText (s : Str) : Str := 34 :: s.flatMap escapeChar ++ [34]

def dumpsFloat : Float64 → Str
  | .nan => str "NaN"
  | .inf neg => str (if neg then "-Infinity" else "Infinity")
  | x => reprFloat x

mutual

/-- `json.dumps(value, ensure_ascii=False)`. -/
def dumps : Json → Str
  | .null => str "null"
  | .bool b => str (if b then "true" else "false")
  | .int i => decimalInt i
  | .float x => dumpsFloat x
  | .str s => dumpsText s
  | .arr xs => str "[" ++ dumpsItems xs ++ str "]"
  | .obj d => [123] ++ dumpsEntries d ++ [125]

def dumpsItems : List Json → Str
  | [] => []
  | [x] => dumps x
  | x :: xs => dumps x ++ str ", " ++ dumpsItems xs

def dumpsEntries : List (Str × Json) → Str
  | [] => []
  | [(k, x)] => dumpsText k ++ str ": " ++ dumps x
  | (k, x) :: d => dumpsText k ++ str ": " ++ dumps x ++ str ", " ++ dumpsEntries d

end

def truncationNote : Str := str "…[truncated by the web layer]"

def trimField (keep : Nat) (payload : Dict) (key : Str) : Dict :=
  match Dict.get payload key with
  | none | some .null => payload
  | some (.str s) => Dict.set payload key (.str (s.take keep ++ truncationNote))
  | some (.obj d) => Dict.set payload key (.obj [(str "truncated", .bool true),
      (str "preview", .str ((dumps (.obj d)).take keep))])
  | some v => Dict.set payload key (.str ((dumps v).take keep ++ truncationNote))

def trimmedKeys : List Str := ["data", "message", "text", "answer", "prompt"]

/-- Bound the size of a relayed event. A bound of zero or less is no bound. -/
def sanitizeEvent (payload : Dict) (maxBytes : Int) : Dict :=
  if maxBytes ≤ 0 ∨ ((dumps (.obj payload)).length : Int) ≤ maxBytes then payload
  else
    let keep := (max 0 (maxBytes / 2)).toNat
    Dict.set (trimmedKeys.foldl (trimField keep) payload) "truncated" (.bool true)

theorem get_trimField (keep : Nat) (payload : Dict) {key k : Str} (h : k ≠ key) :
    Dict.get (trimField keep payload key) k = Dict.get payload k := by
  rw [trimField]
  split <;> first | rfl | exact Dict.get_set_ne _ _ h

theorem get_foldl_trimField (keep : Nat) (keys : List Str) (payload : Dict) {k : Str}
    (h : k ∉ keys) : Dict.get (keys.foldl (trimField keep) payload) k = Dict.get payload k := by
  induction keys generalizing payload with
  | nil => rfl
  | cons key keys ih =>
      rw [List.mem_cons, not_or] at h
      rw [List.foldl_cons, ih _ h.2, get_trimField keep payload h.1]

theorem get_sanitizeEvent (payload : Dict) (maxBytes : Int) {k : Str} (h : k ∉ trimmedKeys)
    (hk : k ≠ "truncated") : Dict.get (sanitizeEvent payload maxBytes) k = Dict.get payload k := by
  rw [sanitizeEvent]
  split
  · rfl
  · rw [Dict.get_set_ne _ _ hk, get_foldl_trimField _ _ _ h]

theorem fetch_sanitizeEvent (payload : Dict) (maxBytes : Int) {k : Str} (h : k ∉ trimmedKeys)
    (hk : k ≠ "truncated") : fetch (sanitizeEvent payload maxBytes) k = fetch payload k := by
  rw [fetch, fetch, get_sanitizeEvent payload maxBytes h hk]

end AgentWeb.Sanitize
