import AgentWeb.Replay

namespace AgentWeb.Elision

open PyText PyJson Protocol Replay

/-- What the cap promises of the stored list: it fits, and where anything is
left out, one marker between a head and a tail of the merged list counts exactly
what is missing. -/
structure HonestlyCapped (merged : List Dict) (maxEvents : Int) (stored : List Dict) : Prop where
  fits : (stored.length : Int) ≤ maxEvents
  complete_or_elided : stored = merged ∨
    ∃ head middle tail marker, merged = head ++ middle ++ tail ∧
      stored = head ++ marker :: tail ∧ 0 < middle.length ∧
      fetch marker "elided" = .int middle.length

@[simp] theorem fetch_elisionMarker (dropped : Int) :
    fetch (elisionMarker dropped) "elided" = .int dropped := rfl

def keptEachSide (maxEvents : Int) : Nat := (max 1 ((maxEvents - 1) / 2)).toNat

theorem keptEachSide_pos (maxEvents : Int) : 0 < keptEachSide maxEvents := by
  rw [keptEachSide]
  omega

theorem keptEachSide_le {maxEvents : Int} (h : 3 ≤ maxEvents) :
    2 * (keptEachSide maxEvents : Int) + 1 ≤ maxEvents := by
  rw [keptEachSide]
  omega

variable [Interpreter]

theorem coalesceEvents_of_gt {events : List Dict} {maxEvents : Int} (hpos : 1 ≤ maxEvents)
    (hlt : maxEvents < (mergeEvents events).length) :
    coalesceEvents events maxEvents =
      (mergeEvents events).take (keptEachSide maxEvents) ++
        elisionMarker ((mergeEvents events).length - 2 * keptEachSide maxEvents) ::
          (mergeEvents events).rtake (keptEachSide maxEvents) := by
  have hn : ¬(maxEvents ≤ 0 ∨ ((mergeEvents events).length : Int) ≤ maxEvents) := by omega
  simp only [coalesceEvents, if_neg hn, keptEachSide]

theorem length_coalesceEvents_of_gt {events : List Dict} {maxEvents : Int} (hpos : 1 ≤ maxEvents)
    (hlt : maxEvents < (mergeEvents events).length) : 3 ≤ (coalesceEvents events maxEvents).length := by
  rw [coalesceEvents_of_gt hpos hlt, List.length_append, List.length_cons, List.length_take,
    List.rtake_eq_reverse_take_reverse, List.length_reverse, List.length_take, List.length_reverse]
  have hkeep := keptEachSide_pos maxEvents
  omega

theorem honestlyCapped_of_three_le (events : List Dict) {maxEvents : Int} (hthree : 3 ≤ maxEvents)
    (hlt : maxEvents < (mergeEvents events).length) :
    HonestlyCapped (mergeEvents events) maxEvents (coalesceEvents events maxEvents) := by
  rw [coalesceEvents_of_gt (by omega) hlt]
  generalize mergeEvents events = merged at hlt ⊢
  generalize hkeep : keptEachSide maxEvents = keep
  have hfit : 2 * (keep : Int) + 1 ≤ maxEvents := hkeep ▸ keptEachSide_le hthree
  have hmiddle : ((merged.rdrop keep).drop keep).length = merged.length - 2 * keep := by
    simp [List.rdrop]
    omega
  have hpre : (merged.rdrop keep).take keep = merged.take keep := by
    rw [List.rdrop, List.take_take, Nat.min_eq_left (by omega)]
  refine ⟨?_, .inr ⟨merged.take keep, (merged.rdrop keep).drop keep, merged.rtake keep,
    elisionMarker (merged.length - 2 * keep), ?_, rfl, by omega, ?_⟩⟩
  · simp only [List.length_append, List.length_cons, List.length_take, List.rtake,
      List.length_drop]
    omega
  · calc merged = merged.rdrop keep ++ merged.rtake keep := by
          rw [List.rdrop, List.rtake, List.take_append_drop]
      _ = merged.take keep ++ (merged.rdrop keep).drop keep ++ merged.rtake keep := by
          rw [← hpre, List.take_append_drop]
  · rw [fetch_elisionMarker, hmiddle]
    congr 1
    omega

/-- The cap is kept from three on. Below that only a list that is short enough
already is stored as promised. -/
theorem coalesceEvents_honestlyCapped_iff (events : List Dict) (maxEvents : Int)
    (hpos : 1 ≤ maxEvents) :
    HonestlyCapped (mergeEvents events) maxEvents (coalesceEvents events maxEvents) ↔
      3 ≤ maxEvents ∨ ((mergeEvents events).length : Int) ≤ maxEvents := by
  constructor
  · intro h
    by_contra hcon
    push Not at hcon
    have hthree := length_coalesceEvents_of_gt hpos hcon.2
    have hfits := h.fits
    omega
  · intro h
    rcases le_or_gt ((mergeEvents events).length : Int) maxEvents with hle | hlt
    · rw [coalesceEvents_of_le (.inr hle)]
      exact ⟨hle, .inl rfl⟩
    · exact honestlyCapped_of_three_le events (by omega) hlt

omit [Interpreter]

/-- A cap of three, and four events that do not merge. -/
theorem coalesceEvents_honestlyCapped_three :
    letI : Interpreter := asciiTables
    HonestlyCapped (mergeEvents (List.replicate 4 (runEvent (str "queued")))) 3
      (coalesceEvents (List.replicate 4 (runEvent (str "queued"))) 3) := by
  let _ : Interpreter := asciiTables
  exact (coalesceEvents_honestlyCapped_iff _ 3 (by decide)).mpr (.inl le_rfl)

/-- Under a cap of one event two of them become three: both are kept, around a
marker that counts none. -/
theorem coalesceEvents_two_under_one :
    letI : Interpreter := asciiTables
    ¬∀ (events : List Dict) (maxEvents : Int), 1 ≤ maxEvents →
      HonestlyCapped (mergeEvents events) maxEvents (coalesceEvents events maxEvents) := by
  let _ : Interpreter := asciiTables
  intro h
  have hfits := (h [runEvent (str "queued"), runEvent (str "running")] 1 le_rfl).fits
  revert hfits
  decide

end AgentWeb.Elision
