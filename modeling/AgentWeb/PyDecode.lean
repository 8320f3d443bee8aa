import AgentWeb.PyText

namespace AgentWeb.PyDecode

open PyText

/-- A character whose first bytes have been read. The next byte is one of `low`
to `high`, and `more` bytes come behind it. -/
structure Partial where
  point : Nat
  low : Nat
  high : Nat
  more : Nat

def replacement : Nat := 0xFFFD

def startChar (b : Nat) : Str × Option Partial :=
  if b < 0x80 then ([b], none)
  else if 0xC2 ≤ b ∧ b ≤ 0xDF then ([], some ⟨b - 0xC0, 0x80, 0xBF, 0⟩)
  else if b = 0xE0 then ([], some ⟨0, 0xA0, 0xBF, 1⟩)
  else if b = 0xED then ([], some ⟨0xD, 0x80, 0x9F, 1⟩)
  else if 0xE1 ≤ b ∧ b ≤ 0xEF then ([], some ⟨b - 0xE0, 0x80, 0xBF, 1⟩)
  else if b = 0xF0 then ([], some ⟨0, 0x90, 0xBF, 2⟩)
  else if 0xF1 ≤ b ∧ b ≤ 0xF3 then ([], some ⟨b - 0xF0, 0x80, 0xBF, 2⟩)
  else if b = 0xF4 then ([], some ⟨4, 0x80, 0x8F, 2⟩)
  else ([replacement], none)

def nextByte (b : Nat) : Option Partial → Str × Option Partial
  | none => startChar b
  | some p =>
      if p.low ≤ b ∧ b ≤ p.high then
        let point := 64 * p.point + (b - 0x80)
        match p.more with
        | 0 => ([point], none)
        | more + 1 => ([], some ⟨point, 0x80, 0xBF, more⟩)
      else
        -- the bytes read so far are replaced, and this one starts anew
        let r := startChar b
        (replacement :: r.1, r.2)

def decodeFrom : Option Partial → List UInt8 → Str
  | none, [] => []
  | some _, [] => [replacement]
  | p, b :: bs =>
      let r := nextByte b.toNat p
      r.1 ++ decodeFrom r.2 bs

/-- `bytes.decode("utf-8", "replace")`. -/
def decode (bs : List UInt8) : Str := decodeFrom none bs

def Ascii (bs : List UInt8) : Prop := ∀ b ∈ bs, b < 0x80

instance (bs : List UInt8) : Decidable (Ascii bs) := List.decidableBAll _ _

theorem decode_ascii {bs : List UInt8} (h : Ascii bs) : decode bs = bs.map UInt8.toNat := by
  rw [decode]
  induction bs with
  | nil => rfl
  | cons b bs ih =>
      have hb : b.toNat < 0x80 := UInt8.lt_iff_toNat_lt.mp (h b List.mem_cons_self)
      have hrest := ih fun c hc => h c (List.mem_cons_of_mem b hc)
      rw [decodeFrom, nextByte, startChar, if_pos hb, hrest]
      rfl

theorem toNat_map_injective : Function.Injective (List.map UInt8.toNat) :=
  List.map_injective_iff.mpr fun _ _ h => UInt8.toNat_inj.mp h

theorem startChar_some {b : Nat} (h : (startChar b).1 = []) : (startChar b).2 ≠ none := by
  revert h
  rw [startChar]
  split_ifs <;> simp

theorem nextByte_some {b : Nat} {p : Option Partial} (h : (nextByte b p).1 = []) :
    (nextByte b p).2 ≠ none := by
  cases p with
  | none => exact startChar_some h
  | some p =>
      revert h
      rw [nextByte]
      split
      · cases p.more <;> simp
      · simp

theorem decodeFrom_eq_nil {p : Option Partial} {bs : List UInt8} (h : decodeFrom p bs = []) :
    p = none ∧ bs = [] := by
  induction bs generalizing p with
  | nil =>
      cases p with
      | none => exact ⟨rfl, rfl⟩
      | some p => simp [decodeFrom] at h
  | cons b bs ih =>
      rw [decodeFrom] at h
      obtain ⟨hout, hrest⟩ := List.append_eq_nil_iff.mp h
      exact absurd (ih hrest).1 (nextByte_some hout)

theorem decode_eq_nil {bs : List UInt8} : decode bs = [] ↔ bs = [] := by
  constructor
  · exact fun h => (decodeFrom_eq_nil h).2
  · rintro rfl
    rfl

end AgentWeb.PyDecode
