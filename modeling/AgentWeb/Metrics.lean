import AgentWeb.Dicts
import AgentWeb.PyNumber
import Mathlib.Data.List.Dedup
import Mathlib.Data.List.Lex
import Mathlib.Data.Nat.Basic

namespace AgentWeb.Metrics

open Dicts PyFloat PyNumber PyText

abbrev Labels := List (Str × Str)

abbrev Key := Str × Labels

def leItem (x y : Str × Str) : Bool := decide (x.1 < y.1) || (decide (x.1 = y.1) && decide (x.2 ≤ y.2))

def labelset (labels : Labels) : Labels := labels.mergeSort leItem

def zero : Float64 := .finite false 0 (-1074)

def defaultBuckets : List Float64 :=
  [ofDecimal false 5 (-3), ofDecimal false 25 (-3), ofDecimal false 1 (-1), ofDecimal false 5 (-1),
    ofDecimal false 1 0, ofDecimal false 5 0, ofDecimal false 30 0, ofDecimal false 120 0]

structure MetricsRegistry where
  counters : OrderedDict Key Float64
  histSum : OrderedDict Key Float64
  histCount : OrderedDict Key Nat
  histBuckets : OrderedDict Key (List Nat)
  help : OrderedDict Str Str

def MetricsRegistry.initial : MetricsRegistry := ⟨.empty, .empty, .empty, .empty, .empty⟩

def remember (help : OrderedDict Str Str) (name text : Str) : OrderedDict Str Str :=
  if text = [] ∨ (help.get name).isSome then help else help.set name text

def MetricsRegistry.counter (r : MetricsRegistry) (name : Str) (value : Float64) (labels : Labels)
    (help : Str) : MetricsRegistry :=
  let key := (name, labelset labels)
  { r with
    counters := r.counters.set key (addFloat ((r.counters.get key).getD zero) value)
    help := remember r.help name help }

def bump (value : Float64) (buckets : List Nat) : List Nat :=
  List.zipWith (fun n edge => if le (.float value) (.float edge) then n + 1 else n) buckets
    defaultBuckets

def MetricsRegistry.observe (r : MetricsRegistry) (name : Str) (value : Float64) (labels : Labels)
    (help : Str) : MetricsRegistry :=
  let key := (name, labelset labels)
  let buckets := (r.histBuckets.get key).getD (List.replicate defaultBuckets.length 0)
  { r with
    histSum := r.histSum.set key (addFloat ((r.histSum.get key).getD zero) value)
    histCount := r.histCount.set key ((r.histCount.get key).getD 0 + 1)
    histBuckets := r.histBuckets.set key (bump value buckets)
    help := remember r.help name help }

def MetricsRegistry.reset (r : MetricsRegistry) : MetricsRegistry :=
  { r with counters := .empty, histSum := .empty, histCount := .empty, histBuckets := .empty }

/-- A line of the exposition. The edge of a bucket is `none` for `+Inf`. -/
inductive Line
  | help (name text : Str)
  | type (name kind : Str)
  | counter (name : Str) (labels : Labels) (value : Float64)
  | bucket (name : Str) (labels : Labels) (le : Option Float64) (value : Nat)
  | sum (name : Str) (labels : Labels) (value : Float64)
  | count (name : Str) (labels : Labels) (value : Nat)
  deriving DecidableEq

def bucketLines (name : Str) (labels : Labels) : Nat → List (Float64 × Nat) → List Line
  | _, [] => []
  | cumulative, (edge, n) :: rest =>
      .bucket name labels (some edge) (cumulative + n) ::
        bucketLines name labels (cumulative + n) rest

/-- The lines of one histogram. `observe` writes its three entries together, so the
sum and the count are there. -/
def seriesLines (r : MetricsRegistry) (key : Key) (buckets : List Nat) : List Line :=
  let total := (r.histCount.get key).getD 0
  bucketLines key.1 key.2 0 (defaultBuckets.zip buckets) ++
    [.bucket key.1 key.2 none total, .sum key.1 key.2 ((r.histSum.get key).getD zero),
      .count key.1 key.2 total]

def header (r : MetricsRegistry) (name kind : Str) : List Line :=
  ((r.help.get name).map (.help name)).toList ++ [.type name kind]

/-- `sorted` of the set of names. -/
def namesOf {ν : Type} (d : OrderedDict Key ν) : List Str :=
  (d.items.map fun item => item.1.1).dedup.mergeSort fun x y => decide (x ≤ y)

def MetricsRegistry.lines (r : MetricsRegistry) : List Line :=
  ((namesOf r.counters).flatMap fun name =>
    header r name (str "counter") ++
      (r.counters.items.filter (·.1.1 = name)).map fun item => .counter name item.1.2 item.2) ++
  (namesOf r.histCount).flatMap fun name =>
    header r name (str "histogram") ++
      (r.histBuckets.items.filter (·.1.1 = name)).flatMap fun item => seriesLines r item.1 item.2

def fmtLabels (labels : Labels) : Str :=
  if labels = [] then []
  else str "\x7b" ++
    (str ",").intercalate (labels.map fun p => p.1 ++ str "=\"" ++ p.2 ++ str "\"") ++ str "\x7d"

def Line.text : Line → Str
  | .help name text => str "# HELP " ++ name ++ str " " ++ text
  | .type name kind => str "# TYPE " ++ name ++ str " " ++ kind
  | .counter name labels value => name ++ fmtLabels labels ++ str " " ++ reprFloat value
  | .bucket name labels le value =>
      let edge := (le.map reprFloat).getD (str "+Inf")
      name ++ str "_bucket" ++ fmtLabels (labels ++ [(str "le", edge)]) ++ str " " ++ decimal value
  | .sum name labels value => name ++ str "_sum" ++ fmtLabels labels ++ str " " ++ reprFloat value
  | .count name labels value => name ++ str "_count" ++ fmtLabels labels ++ str " " ++ decimal value

def MetricsRegistry.render (r : MetricsRegistry) : Str :=
  (str "\n").intercalate (r.lines.map Line.text) ++ str "\n"

end AgentWeb.Metrics
