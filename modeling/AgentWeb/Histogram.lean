import AgentWeb.Metrics

namespace AgentWeb.Histogram

open Dicts Metrics PyFloat PyNumber PyText

inductive Call
  | counter (name : Str) (value : Float64) (labels : Labels) (help : Str)
  | observe (name : Str) (value : Float64) (labels : Labels) (help : Str)
  | reset

def apply (r : MetricsRegistry) : Call → MetricsRegistry
  | .counter name value labels help => r.counter name value labels help
  | .observe name value labels help => r.observe name value labels help
  | .reset => r.reset

def registry (calls : List Call) : MetricsRegistry := calls.foldl apply .initial

def note (key : Key) (obs : List Float64) : Call → List Float64
  | .counter .. => obs
  | .observe name value labels _ => if (name, labelset labels) = key then obs ++ [value] else obs
  | .reset => []

def observations (key : Key) (calls : List Call) : List Float64 := calls.foldl (note key) []

def numberLe (obs : List Float64) (edge : Float64) : Nat :=
  obs.countP fun x => le (.float x) (.float edge)

/-- What a scraper reads of a histogram: each bucket counts the observations up to
its edge, and the last one counts all. -/
structure Prometheus (lines : List Line) (key : Key) (obs : List Float64) : Prop where
  exact : ∀ e ∈ defaultBuckets, ∀ v, .bucket key.1 key.2 (some e) v ∈ lines ↔ v = numberLe obs e
  monotone : ∀ e ∈ defaultBuckets, ∀ e' ∈ defaultBuckets, le (.float e) (.float e') → ∀ v v',
    .bucket key.1 key.2 (some e) v ∈ lines → .bucket key.1 key.2 (some e') v' ∈ lines → v ≤ v'
  total : ∃ n, (∀ v, .bucket key.1 key.2 none v ∈ lines ↔ v = n) ∧
    (∀ v, .count key.1 key.2 v ∈ lines ↔ v = n) ∧
    ∀ e ∈ defaultBuckets, ∀ v, .bucket key.1 key.2 (some e) v ∈ lines → v ≤ n

theorem registry_snoc (calls : List Call) (c : Call) :
    registry (calls ++ [c]) = apply (registry calls) c := by
  rw [registry, List.foldl_append]
  rfl

theorem observations_snoc (key : Key) (calls : List Call) (c : Call) :
    observations key (calls ++ [c]) = note key (observations key calls) c := by
  rw [observations, List.foldl_append]
  rfl

theorem bump_numberLe (value : Float64) (obs : List Float64) :
    bump value (defaultBuckets.map (numberLe obs)) = defaultBuckets.map (numberLe (obs ++ [value])) := by
  rw [bump, List.zipWith_map_left, List.zipWith_self]
  refine List.map_congr_left fun e _ => ?_
  rw [numberLe, numberLe, List.countP_append, List.countP_singleton]
  split <;> rfl

theorem registry_entries (calls : List Call) (key : Key) :
    (registry calls).histBuckets.get key = (if observations key calls = [] then none
      else some (defaultBuckets.map (numberLe (observations key calls)))) ∧
    (registry calls).histCount.get key = (if observations key calls = [] then none
      else some (observations key calls).length) := by
  induction calls using List.reverseRecOn with
  | nil => exact ⟨rfl, rfl⟩
  | append_singleton calls c ih =>
      rw [registry_snoc, observations_snoc]
      cases c with
      | counter name value labels help => exact ih
      | reset => exact ⟨rfl, rfl⟩
      | observe name value labels help =>
          by_cases hkey : (name, labelset labels) = key
          · subst hkey
            have hne : observations (name, labelset labels) calls ++ [value] ≠ [] := by simp
            simp only [apply, MetricsRegistry.observe, note, if_true, if_neg hne, get_set_self]
            rw [ih.1, ih.2]
            have hbuckets : (if observations (name, labelset labels) calls = [] then none
                else some (defaultBuckets.map (numberLe (observations (name, labelset labels) calls)))
                  ).getD (List.replicate defaultBuckets.length 0) =
                defaultBuckets.map (numberLe (observations (name, labelset labels) calls)) := by
              split
              next hnil => rw [hnil]; rfl
              next => rfl
            rw [hbuckets, bump_numberLe]
            refine ⟨rfl, congrArg some ?_⟩
            split
            next hnil => rw [hnil]; rfl
            next => rw [List.length_append]; rfl
          · simp only [apply, MetricsRegistry.observe, note, if_neg hkey,
              get_set_of_ne _ _ (Ne.symm hkey)]
            exact ih

def keyOf : Line → Option Key
  | .bucket name labels _ _ | .sum name labels _ | .count name labels _ => some (name, labels)
  | .help .. | .type .. | .counter .. => none

theorem mem_bucketLines {name : Str} {labels : Labels} {l : Line} (f : Float64 → Nat)
    (edges : List Float64) (cumulative : Nat) :
    l ∈ bucketLines name labels cumulative (edges.map fun e => (e, f e)) ↔
      ∃ before e later, edges = before ++ e :: later ∧
        l = .bucket name labels (some e) (cumulative + (before.map f).sum + f e) := by
  induction edges generalizing cumulative with
  | nil => simp [bucketLines]
  | cons edge edges ih =>
      rw [List.map_cons, bucketLines, List.mem_cons, ih]
      constructor
      · rintro (rfl | ⟨before, e, later, rfl, rfl⟩)
        · exact ⟨[], edge, edges, rfl, rfl⟩
        · refine ⟨edge :: before, e, later, rfl, ?_⟩
          rw [List.map_cons, List.sum_cons, Nat.add_assoc cumulative (f edge)]
      · rintro ⟨before, e, later, hedges, rfl⟩
        cases before with
        | nil =>
            cases hedges
            exact .inl rfl
        | cons edge' before =>
            cases hedges
            refine .inr ⟨before, e, later, rfl, ?_⟩
            rw [List.map_cons, List.sum_cons, Nat.add_assoc cumulative (f edge)]

theorem mem_seriesLines {r : MetricsRegistry} {key : Key} {l : Line} (f : Float64 → Nat) :
    l ∈ seriesLines r key (defaultBuckets.map f) ↔
      (∃ before e later, defaultBuckets = before ++ e :: later ∧
        l = .bucket key.1 key.2 (some e) ((before.map f).sum + f e)) ∨
      l = .bucket key.1 key.2 none ((r.histCount.get key).getD 0) ∨
      l = .sum key.1 key.2 ((r.histSum.get key).getD zero) ∨
      l = .count key.1 key.2 ((r.histCount.get key).getD 0) := by
  rw [seriesLines, ← List.map_prod_left_eq_zip, List.mem_append, mem_bucketLines]
  simp

theorem keyOf_seriesLines {r : MetricsRegistry} {key : Key} {f : Float64 → Nat} {l : Line}
    (h : l ∈ seriesLines r key (defaultBuckets.map f)) : keyOf l = some key := by
  rcases (mem_seriesLines f).mp h with ⟨_, _, _, _, rfl⟩ | rfl | rfl | rfl <;> rfl

theorem keyOf_header {r : MetricsRegistry} {name kind : Str} {l : Line} (h : l ∈ header r name kind) :
    keyOf l = none := by
  rcases List.mem_append.mp h with h | h
  · obtain ⟨text, -, rfl⟩ := Option.map_eq_some_iff.mp (Option.mem_toList.mp h)
    rfl
  · rw [List.mem_singleton.mp h]
    rfl

theorem mem_namesOf {ν : Type} {d : OrderedDict Key ν} {name : Str} :
    name ∈ namesOf d ↔ ∃ item ∈ d.items, item.1.1 = name := by
  simp [namesOf]

theorem mem_lines_iff {r : MetricsRegistry} {l : Line} (hl : (keyOf l).isSome) :
    l ∈ r.lines ↔ ∃ item ∈ r.histBuckets.items, item.1.1 ∈ namesOf r.histCount ∧
      l ∈ seriesLines r item.1 item.2 := by
  have hheader : ∀ name kind, l ∉ header r name kind := fun name kind h => by
    rw [keyOf_header h] at hl
    cases hl
  rw [MetricsRegistry.lines, List.mem_append, List.mem_flatMap, List.mem_flatMap]
  constructor
  · rintro (⟨name, -, hmem⟩ | ⟨name, hname, hmem⟩)
    · rcases List.mem_append.mp hmem with hmem | hmem
      · exact absurd hmem (hheader _ _)
      · obtain ⟨item, -, rfl⟩ := List.mem_map.mp hmem
        cases hl
    · rcases List.mem_append.mp hmem with hmem | hmem
      · exact absurd hmem (hheader _ _)
      · obtain ⟨item, hitem, hseries⟩ := List.mem_flatMap.mp hmem
        obtain ⟨hitem, heq⟩ := List.mem_filter.mp hitem
        rw [← of_decide_eq_true heq] at hname
        exact ⟨item, hitem, hname, hseries⟩
  · rintro ⟨item, hitem, hname, hseries⟩
    refine .inr ⟨item.1.1, hname, List.mem_append_right _ (List.mem_flatMap.mpr ⟨item, ?_, hseries⟩)⟩
    exact List.mem_filter.mpr ⟨hitem, by simp⟩

theorem mem_lines_registry {calls : List Call} {key : Key} {l : Line} (hl : keyOf l = some key)
    (hobs : observations key calls ≠ []) :
    l ∈ (registry calls).lines ↔ l ∈ seriesLines (registry calls) key
      (defaultBuckets.map (numberLe (observations key calls))) := by
  have hentries := registry_entries calls key
  rw [if_neg hobs, if_neg hobs] at hentries
  rw [mem_lines_iff (by rw [hl]; rfl)]
  constructor
  · rintro ⟨⟨k, buckets⟩, hitem, -, hseries⟩
    have hbuckets := mem_items_iff.mp hitem
    have hk := (registry_entries calls k).1
    rw [hbuckets] at hk
    split at hk
    next => cases hk
    next =>
      cases hk
      cases hl.symm.trans (keyOf_seriesLines hseries)
      exact hseries
  · intro hseries
    have hcount := mem_items_iff.mpr hentries.2
    exact ⟨(key, _), mem_items_iff.mpr hentries.1, mem_namesOf.mpr ⟨_, hcount, rfl⟩, hseries⟩

section Rendered

variable {calls : List Call} {key : Key}

theorem rendered_edge (hobs : observations key calls ≠ []) (e : Float64) (v : Nat) :
    .bucket key.1 key.2 (some e) v ∈ (registry calls).lines ↔
      ∃ before later, defaultBuckets = before ++ e :: later ∧
        v = (before.map (numberLe (observations key calls))).sum +
          numberLe (observations key calls) e := by
  rw [mem_lines_registry rfl hobs, mem_seriesLines]
  constructor
  · rintro (⟨before, e', later, hedges, hline⟩ | hline | hline | hline)
    · cases hline
      exact ⟨before, later, hedges, rfl⟩
    all_goals cases hline
  · rintro ⟨before, later, hedges, rfl⟩
    exact .inl ⟨before, e, later, hedges, rfl⟩

theorem rendered_total (hobs : observations key calls ≠ []) (v : Nat) :
    (.bucket key.1 key.2 none v ∈ (registry calls).lines ↔ v = (observations key calls).length) ∧
      (.count key.1 key.2 v ∈ (registry calls).lines ↔ v = (observations key calls).length) := by
  have hcount := (registry_entries calls key).2
  rw [if_neg hobs] at hcount
  rw [mem_lines_registry rfl hobs, mem_lines_registry rfl hobs, mem_seriesLines, mem_seriesLines,
    hcount]
  simp

end Rendered

def lastEdge : Float64 := ofDecimal false 120 0

theorem defaultBuckets_eq : defaultBuckets = defaultBuckets.dropLast ++ [lastEdge] := rfl

theorem lastEdge_greatest : ∀ e ∈ defaultBuckets, le (.float lastEdge) (.float e) → e = lastEdge := by
  decide +kernel

theorem numberLe_eq_zero_iff {obs : List Float64} {e : Float64} :
    numberLe obs e = 0 ↔ ∀ x ∈ obs, le (.float x) (.float e) = false := by
  simp [numberLe, List.countP_eq_zero]

section Right

variable {calls : List Call} {key : Key}

theorem rendered_of_empty (hobs : observations key calls ≠ [])
    (hzero : ∀ e ∈ defaultBuckets.dropLast, numberLe (observations key calls) e = 0) {e : Float64}
    (he : e ∈ defaultBuckets) (v : Nat) :
    .bucket key.1 key.2 (some e) v ∈ (registry calls).lines ↔
      v = numberLe (observations key calls) e := by
  have hbelow : ∀ before later, defaultBuckets = before ++ e :: later →
      (before.map (numberLe (observations key calls))).sum = 0 := by
    intro before later hedges
    refine List.sum_eq_zero_iff_forall_eq_nat.mpr fun n hn => ?_
    obtain ⟨e', he', rfl⟩ := List.mem_map.mp hn
    refine hzero e' ?_
    rw [hedges, List.dropLast_append_cons]
    exact List.mem_append_left _ he'
  rw [rendered_edge hobs]
  constructor
  · rintro ⟨before, later, hedges, rfl⟩
    rw [hbelow before later hedges, Nat.zero_add]
  · rintro rfl
    obtain ⟨before, later, hedges⟩ := List.append_of_mem he
    exact ⟨before, later, hedges, by rw [hbelow before later hedges, Nat.zero_add]⟩

theorem prometheus_of_empty (hobs : observations key calls ≠ [])
    (hzero : ∀ e ∈ defaultBuckets.dropLast, numberLe (observations key calls) e = 0) :
    Prometheus (registry calls).lines key (observations key calls) where
  exact e he v := rendered_of_empty hobs hzero he v
  monotone e he e' he' hle v v' hv hv' := by
    rw [(rendered_of_empty hobs hzero he v).mp hv, (rendered_of_empty hobs hzero he' v').mp hv']
    have hmem := he
    rw [defaultBuckets_eq, List.mem_append, List.mem_singleton] at hmem
    rcases hmem with hmem | rfl
    · rw [hzero e hmem]
      exact Nat.zero_le _
    · rw [lastEdge_greatest e' he' hle]
  total := by
    refine ⟨(observations key calls).length, fun v => (rendered_total hobs v).1,
      fun v => (rendered_total hobs v).2, fun e he v hv => ?_⟩
    rw [(rendered_of_empty hobs hzero he v).mp hv]
    exact List.countP_le_length

theorem empty_of_prometheus (hobs : observations key calls ≠ [])
    (h : Prometheus (registry calls).lines key (observations key calls)) :
    ∀ e ∈ defaultBuckets.dropLast, numberLe (observations key calls) e = 0 := by
  have hlast : lastEdge ∈ defaultBuckets := by
    rw [defaultBuckets_eq]
    simp
  have hrendered := (h.exact lastEdge hlast _).mp
    ((rendered_edge hobs lastEdge _).mpr ⟨defaultBuckets.dropLast, [], defaultBuckets_eq, rfl⟩)
  have hsum : (defaultBuckets.dropLast.map (numberLe (observations key calls))).sum = 0 := by omega
  exact fun e he => List.sum_eq_zero_iff_forall_eq_nat.mp hsum _ (List.mem_map_of_mem he)

end Right

/-- `observe` and `render` both accumulate, so the buckets are right only where all
of them but the last are empty. -/
theorem prometheus_iff (calls : List Call) (key : Key) :
    (observations key calls ≠ [] →
      Prometheus (registry calls).lines key (observations key calls)) ↔
      ∀ x ∈ observations key calls, ∀ e ∈ defaultBuckets.dropLast,
        le (.float x) (.float e) = false := by
  constructor
  · intro h x hx e he
    have hobs : observations key calls ≠ [] := List.ne_nil_of_mem hx
    exact numberLe_eq_zero_iff.mp (empty_of_prometheus hobs (h hobs) e he) x hx
  · intro h hobs
    exact prometheus_of_empty hobs fun e he => numberLe_eq_zero_iff.mpr fun x hx => h x hx e he

def oneRequest : List Call := [.observe (str "lat_seconds") (ofDecimal false 2 (-1)) [] []]

/-- One request of 0.2 seconds is counted five times up to the last edge. -/
theorem prometheus_oneRequest :
    ¬ (observations (str "lat_seconds", []) oneRequest ≠ [] →
      Prometheus (registry oneRequest).lines (str "lat_seconds", [])
        (observations (str "lat_seconds", []) oneRequest)) := by
  intro h
  have hwrong := ((h (by decide +kernel)).exact lastEdge (by decide +kernel) 5).mp (by decide +kernel)
  exact absurd hwrong (by decide +kernel)

end AgentWeb.Histogram
