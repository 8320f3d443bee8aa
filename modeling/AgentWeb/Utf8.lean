import AgentWeb.UploadChecks

namespace AgentWeb.Utf8

open PyText PyDecode UploadChecks

/-- The bytes of some text. -/
def ValidUtf8 (bs : Bytes) : Prop := ∃ text : List Char, text.flatMap String.utf8EncodeChar = bs

def Two (b b₁ : Nat) : Prop := (0xC2 ≤ b ∧ b ≤ 0xDF) ∧ 0x80 ≤ b₁ ∧ b₁ ≤ 0xBF

def Three (b b₁ b₂ : Nat) : Prop :=
  (0xE0 ≤ b ∧ b ≤ 0xEF) ∧ (0x80 ≤ b₁ ∧ b₁ ≤ 0xBF ∧ (b = 0xE0 → 0xA0 ≤ b₁) ∧
    (b = 0xED → b₁ ≤ 0x9F)) ∧ 0x80 ≤ b₂ ∧ b₂ ≤ 0xBF

def Four (b b₁ b₂ b₃ : Nat) : Prop :=
  (0xF0 ≤ b ∧ b ≤ 0xF4) ∧ (0x80 ≤ b₁ ∧ b₁ ≤ 0xBF ∧ (b = 0xF0 → 0x90 ≤ b₁) ∧
    (b = 0xF4 → b₁ ≤ 0x8F)) ∧ (0x80 ≤ b₂ ∧ b₂ ≤ 0xBF) ∧ 0x80 ≤ b₃ ∧ b₃ ≤ 0xBF

section Encoding

theorem toNat_ofNat_valid {n : Nat} (h : n.isValidChar) : (Char.ofNat n).val.toNat = n := by
  rw [Char.ofNat, dif_pos h]
  rfl

theorem eq_ofNat {n : Nat} {b : UInt8} (h : n = b.toNat) : UInt8.ofNat n = b := by
  rw [h, UInt8.ofNat_toNat]

variable {b b₁ b₂ b₃ : UInt8}

theorem encode_one (h : b.toNat < 0x80) : ∃ c, String.utf8EncodeChar c = [b] := by
  refine ⟨Char.ofNat b.toNat, ?_⟩
  have hv := toNat_ofNat_valid (n := b.toNat) (.inl (by omega))
  simp only [String.utf8EncodeChar, hv]
  rw [if_pos (by omega), eq_ofNat rfl]

theorem encode_two (h : Two b.toNat b₁.toNat) : ∃ c, String.utf8EncodeChar c = [b, b₁] := by
  obtain ⟨hb, h₁⟩ := h
  refine ⟨Char.ofNat (64 * (b.toNat - 0xC0) + (b₁.toNat - 0x80)), ?_⟩
  have hv := toNat_ofNat_valid (n := 64 * (b.toNat - 0xC0) + (b₁.toNat - 0x80)) (.inl (by omega))
  simp only [String.utf8EncodeChar, hv]
  rw [if_neg (by omega), if_pos (by omega), eq_ofNat (b := b) (by omega),
    eq_ofNat (b := b₁) (by omega)]

theorem encode_three (h : Three b.toNat b₁.toNat b₂.toNat) :
    ∃ c, String.utf8EncodeChar c = [b, b₁, b₂] := by
  obtain ⟨hb, h₁, h₂⟩ := h
  refine ⟨Char.ofNat (4096 * (b.toNat - 0xE0) + 64 * (b₁.toNat - 0x80) + (b₂.toNat - 0x80)), ?_⟩
  have hv := toNat_ofNat_valid
    (n := 4096 * (b.toNat - 0xE0) + 64 * (b₁.toNat - 0x80) + (b₂.toNat - 0x80))
    (by rw [Nat.isValidChar]; omega)
  simp only [String.utf8EncodeChar, hv]
  rw [if_neg (by omega), if_neg (by omega), if_pos (by omega), eq_ofNat (b := b) (by omega),
    eq_ofNat (b := b₁) (by omega), eq_ofNat (b := b₂) (by omega)]

theorem encode_four (h : Four b.toNat b₁.toNat b₂.toNat b₃.toNat) :
    ∃ c, String.utf8EncodeChar c = [b, b₁, b₂, b₃] := by
  obtain ⟨hb, h₁, h₂, h₃⟩ := h
  refine ⟨Char.ofNat (262144 * (b.toNat - 0xF0) + 4096 * (b₁.toNat - 0x80) +
    64 * (b₂.toNat - 0x80) + (b₃.toNat - 0x80)), ?_⟩
  have hv := toNat_ofNat_valid (n := 262144 * (b.toNat - 0xF0) + 4096 * (b₁.toNat - 0x80) +
    64 * (b₂.toNat - 0x80) + (b₃.toNat - 0x80)) (by rw [Nat.isValidChar]; omega)
  simp only [String.utf8EncodeChar, hv]
  rw [if_neg (by omega), if_neg (by omega), if_neg (by omega), eq_ofNat (b := b) (by omega),
    eq_ofNat (b := b₁) (by omega), eq_ofNat (b := b₂) (by omega), eq_ofNat (b := b₃) (by omega)]

theorem encode_cases (c : Char) :
    (∃ b : UInt8, b.toNat < 0x80 ∧ c.val.toNat = b.toNat ∧ String.utf8EncodeChar c = [b]) ∨
      (∃ b b₁ : UInt8, Two b.toNat b₁.toNat ∧
        c.val.toNat = 64 * (b.toNat - 0xC0) + (b₁.toNat - 0x80) ∧
        String.utf8EncodeChar c = [b, b₁]) ∨
      (∃ b b₁ b₂ : UInt8, Three b.toNat b₁.toNat b₂.toNat ∧
        c.val.toNat = 4096 * (b.toNat - 0xE0) + 64 * (b₁.toNat - 0x80) + (b₂.toNat - 0x80) ∧
        String.utf8EncodeChar c = [b, b₁, b₂]) ∨
      ∃ b b₁ b₂ b₃ : UInt8, Four b.toNat b₁.toNat b₂.toNat b₃.toNat ∧
        c.val.toNat = 262144 * (b.toNat - 0xF0) + 4096 * (b₁.toNat - 0x80) +
          64 * (b₂.toNat - 0x80) + (b₃.toNat - 0x80) ∧
        String.utf8EncodeChar c = [b, b₁, b₂, b₃] := by
  have hvalid : c.val.toNat < 55296 ∨ 57343 < c.val.toNat ∧ c.val.toNat < 1114112 := c.valid
  generalize hv : c.val.toNat = v at hvalid
  simp only [String.utf8EncodeChar, hv]
  by_cases hone : v ≤ 0x7f
  · rw [if_pos hone]
    refine .inl ⟨_, ?_, ?_, rfl⟩ <;> rw [UInt8.toNat_ofNat'] <;> omega
  · rw [if_neg hone]
    by_cases htwo : v ≤ 0x7ff
    · rw [if_pos htwo]
      refine .inr (.inl ⟨_, _, ?_, ?_, rfl⟩)
      · rw [Two, UInt8.toNat_ofNat', UInt8.toNat_ofNat']
        omega
      · rw [UInt8.toNat_ofNat', UInt8.toNat_ofNat']
        omega
    · rw [if_neg htwo]
      by_cases hthree : v ≤ 0xffff
      · rw [if_pos hthree]
        refine .inr (.inr (.inl ⟨_, _, _, ?_, ?_, rfl⟩))
        · rw [Three, UInt8.toNat_ofNat', UInt8.toNat_ofNat', UInt8.toNat_ofNat']
          omega
        · rw [UInt8.toNat_ofNat', UInt8.toNat_ofNat', UInt8.toNat_ofNat']
          omega
      · rw [if_neg hthree]
        refine .inr (.inr (.inr ⟨_, _, _, _, ?_, ?_, rfl⟩))
        · rw [Four, UInt8.toNat_ofNat', UInt8.toNat_ofNat', UInt8.toNat_ofNat', UInt8.toNat_ofNat']
          omega
        · rw [UInt8.toNat_ofNat', UInt8.toNat_ofNat', UInt8.toNat_ofNat', UInt8.toNat_ofNat']
          omega

end Encoding

section Leads

variable {b : Nat}

theorem startChar_two (h : 0xC2 ≤ b ∧ b ≤ 0xDF) :
    ∃ p, startChar b = ([], some p) ∧ p.more = 0 ∧ p.point = b - 0xC0 ∧
      ∀ b₁, (p.low ≤ b₁ ∧ b₁ ≤ p.high) ↔ 0x80 ≤ b₁ ∧ b₁ ≤ 0xBF := by
  rw [startChar, if_neg (by omega), if_pos h]
  exact ⟨_, rfl, rfl, rfl, fun _ => Iff.rfl⟩

theorem startChar_three (h : 0xE0 ≤ b ∧ b ≤ 0xEF) :
    ∃ p, startChar b = ([], some p) ∧ p.more = 1 ∧ p.point = b - 0xE0 ∧
      ∀ b₁, (p.low ≤ b₁ ∧ b₁ ≤ p.high) ↔ 0x80 ≤ b₁ ∧ b₁ ≤ 0xBF ∧ (b = 0xE0 → 0xA0 ≤ b₁) ∧
        (b = 0xED → b₁ ≤ 0x9F) := by
  rw [startChar, if_neg (by omega), if_neg (by omega)]
  split_ifs with hlong hsurrogate
  · exact ⟨_, rfl, rfl, by dsimp only; omega, fun b₁ => by dsimp only; omega⟩
  · exact ⟨_, rfl, rfl, by dsimp only; omega, fun b₁ => by dsimp only; omega⟩
  · exact ⟨_, rfl, rfl, rfl, fun b₁ => by dsimp only; omega⟩
  all_goals omega

theorem startChar_four (h : 0xF0 ≤ b ∧ b ≤ 0xF4) :
    ∃ p, startChar b = ([], some p) ∧ p.more = 2 ∧ p.point = b - 0xF0 ∧
      ∀ b₁, (p.low ≤ b₁ ∧ b₁ ≤ p.high) ↔ 0x80 ≤ b₁ ∧ b₁ ≤ 0xBF ∧ (b = 0xF0 → 0x90 ≤ b₁) ∧
        (b = 0xF4 → b₁ ≤ 0x8F) := by
  rw [startChar, if_neg (by omega), if_neg (by omega), if_neg (by omega), if_neg (by omega),
    if_neg (by omega)]
  split_ifs with hlong hmiddle hlarge
  · exact ⟨_, rfl, rfl, by dsimp only; omega, fun b₁ => by dsimp only; omega⟩
  · exact ⟨_, rfl, rfl, rfl, fun b₁ => by dsimp only; omega⟩
  · exact ⟨_, rfl, rfl, by dsimp only; omega, fun b₁ => by dsimp only; omega⟩
  · omega

theorem startChar_other (h : 0x80 ≤ b) (htwo : ¬(0xC2 ≤ b ∧ b ≤ 0xDF))
    (hthree : ¬(0xE0 ≤ b ∧ b ≤ 0xEF)) (hfour : ¬(0xF0 ≤ b ∧ b ≤ 0xF4)) :
    (startChar b).1 = [replacement] := by
  rw [startChar, if_neg (by omega), if_neg htwo, if_neg (by omega), if_neg (by omega),
    if_neg (by omega), if_neg (by omega), if_neg (by omega), if_neg (by omega)]

end Leads

section Automaton

variable {b : UInt8} {bs : Bytes} {p : Partial}

def behind (p : Partial) (b : Nat) : Option Partial :=
  match p.more with
  | 0 => none
  | more + 1 => some ⟨64 * p.point + (b - 0x80), 0x80, 0xBF, more⟩

theorem decodesFrom_some : decodesFrom (some p) bs = true ↔ ∃ b rest, bs = b :: rest ∧
    (p.low ≤ b.toNat ∧ b.toNat ≤ p.high) ∧ decodesFrom (behind p b.toNat) rest = true := by
  cases bs with
  | nil => simp [decodesFrom]
  | cons b bs =>
      by_cases hb : p.low ≤ b.toNat ∧ b.toNat ≤ p.high
      · have hnext : (nextByte b.toNat (some p)).2 = behind p b.toNat := by
          rw [nextByte, if_pos hb, behind]
          cases p.more <;> rfl
        simp [decodesFrom, hnext, hb]
      · rw [decodesFrom, ← Bool.decide_and, decide_eq_false hb, Bool.false_and]
        simp only [List.cons.injEq, Bool.false_eq_true, false_iff, not_exists, not_and]
        rintro c rest ⟨rfl, rfl⟩ hc
        exact absurd hc hb

theorem decodesFrom_last (hmore : p.more = 0) :
    decodesFrom (some p) bs = true ↔ ∃ b rest, bs = b :: rest ∧
      (p.low ≤ b.toNat ∧ b.toNat ≤ p.high) ∧ decodesFrom none rest = true := by
  simp only [decodesFrom_some, behind, hmore]

theorem decodesFrom_oneMore (hmore : p.more = 1) :
    decodesFrom (some p) bs = true ↔ ∃ b₁ b₂ rest, bs = b₁ :: b₂ :: rest ∧
      (p.low ≤ b₁.toNat ∧ b₁.toNat ≤ p.high) ∧ (0x80 ≤ b₂.toNat ∧ b₂.toNat ≤ 0xBF) ∧
        decodesFrom none rest = true := by
  simp only [decodesFrom_some, behind, hmore]
  constructor
  · rintro ⟨b₁, _, rfl, h₁, b₂, rest, rfl, h₂, h⟩
    exact ⟨b₁, b₂, rest, rfl, h₁, h₂, h⟩
  · rintro ⟨b₁, b₂, rest, rfl, h₁, h₂, h⟩
    exact ⟨b₁, _, rfl, h₁, b₂, rest, rfl, h₂, h⟩

theorem decodesFrom_twoMore (hmore : p.more = 2) :
    decodesFrom (some p) bs = true ↔ ∃ b₁ b₂ b₃ rest, bs = b₁ :: b₂ :: b₃ :: rest ∧
      (p.low ≤ b₁.toNat ∧ b₁.toNat ≤ p.high) ∧ (0x80 ≤ b₂.toNat ∧ b₂.toNat ≤ 0xBF) ∧
        (0x80 ≤ b₃.toNat ∧ b₃.toNat ≤ 0xBF) ∧ decodesFrom none rest = true := by
  simp only [decodesFrom_some, behind, hmore]
  constructor
  · rintro ⟨b₁, _, rfl, h₁, b₂, _, rfl, h₂, b₃, rest, rfl, h₃, h⟩
    exact ⟨b₁, b₂, b₃, rest, rfl, h₁, h₂, h₃, h⟩
  · rintro ⟨b₁, b₂, b₃, rest, rfl, h₁, h₂, h₃, h⟩
    exact ⟨b₁, _, rfl, h₁, b₂, _, rfl, h₂, b₃, rest, rfl, h₃, h⟩

theorem decodesFrom_lead (h : startChar b.toNat = ([], some p)) :
    decodesFrom none (b :: bs) = decodesFrom (some p) bs := by
  simp [decodesFrom, h]

theorem decodesFrom_cons : decodesFrom none (b :: bs) = true ↔
    (b.toNat < 0x80 ∧ decodesFrom none bs = true) ∨
      (∃ b₁ rest, bs = b₁ :: rest ∧ Two b.toNat b₁.toNat ∧ decodesFrom none rest = true) ∨
      (∃ b₁ b₂ rest, bs = b₁ :: b₂ :: rest ∧ Three b.toNat b₁.toNat b₂.toNat ∧
        decodesFrom none rest = true) ∨
      ∃ b₁ b₂ b₃ rest, bs = b₁ :: b₂ :: b₃ :: rest ∧
        Four b.toNat b₁.toNat b₂.toNat b₃.toNat ∧ decodesFrom none rest = true := by
  by_cases hone : b.toNat < 0x80
  · have hne : [b.toNat] ≠ [replacement] := by
      intro h
      rw [List.singleton_inj.mp h, replacement] at hone
      omega
    have hleads : ¬(0xC2 ≤ b.toNat) ∧ ¬(0xE0 ≤ b.toNat) ∧ ¬(0xF0 ≤ b.toNat) := by omega
    simp [decodesFrom, startChar, hone, hne, Two, Three, Four, hleads]
  by_cases htwo : 0xC2 ≤ b.toNat ∧ b.toNat ≤ 0xDF
  · obtain ⟨p, hstart, hmore, -, hrange⟩ := startChar_two htwo
    have hleads : ¬(0xE0 ≤ b.toNat) ∧ ¬(0xF0 ≤ b.toNat) := by omega
    simp [decodesFrom_lead hstart, decodesFrom_last hmore, hrange, hone, htwo, Two, Three, Four,
      hleads]
  by_cases hthree : 0xE0 ≤ b.toNat ∧ b.toNat ≤ 0xEF
  · obtain ⟨p, hstart, hmore, -, hrange⟩ := startChar_three hthree
    have hleads : ¬(0xF0 ≤ b.toNat) := by omega
    simp [decodesFrom_lead hstart, decodesFrom_oneMore hmore, hrange, hone, htwo, hthree, Two,
      Three, Four, hleads, and_assoc]
  by_cases hfour : 0xF0 ≤ b.toNat ∧ b.toNat ≤ 0xF4
  · obtain ⟨p, hstart, hmore, -, hrange⟩ := startChar_four hfour
    simp [decodesFrom_lead hstart, decodesFrom_twoMore hmore, hrange, hone, htwo, hthree, hfour,
      Two, Three, Four, and_assoc]
  · have hother := startChar_other (by omega) htwo hthree hfour
    simp [decodesFrom, hother, hone, htwo, hthree, hfour, Two, Three, Four]

theorem decodeFrom_start {b : UInt8} (h : startChar b.toNat = ([], some p)) :
    decodeFrom none (b :: bs) = decodeFrom (some p) bs := by
  rw [decodeFrom, nextByte, h]
  rfl

theorem decodeFrom_more {more : Nat} (hmore : p.more = more + 1)
    (hb : p.low ≤ b.toNat ∧ b.toNat ≤ p.high) :
    decodeFrom (some p) (b :: bs) =
      decodeFrom (some ⟨64 * p.point + (b.toNat - 0x80), 0x80, 0xBF, more⟩) bs := by
  simp [decodeFrom, nextByte, hb, hmore]

theorem decodeFrom_last (hmore : p.more = 0) (hb : p.low ≤ b.toNat ∧ b.toNat ≤ p.high) :
    decodeFrom (some p) (b :: bs) = (64 * p.point + (b.toNat - 0x80)) :: decodeFrom none bs := by
  simp [decodeFrom, nextByte, hb, hmore]

end Automaton

theorem decodeFrom_encode (c : Char) (bs : Bytes) :
    decodeFrom none (String.utf8EncodeChar c ++ bs) = c.val.toNat :: decodeFrom none bs := by
  rcases encode_cases c with ⟨b, hb, hv, he⟩ | ⟨b, b₁, ⟨hb, hb₁⟩, hv, he⟩ |
    ⟨b, b₁, b₂, ⟨hb, hb₁, hb₂⟩, hv, he⟩ | ⟨b, b₁, b₂, b₃, ⟨hb, hb₁, hb₂, hb₃⟩, hv, he⟩
  · rw [he, hv, List.singleton_append, decodeFrom, nextByte, startChar, if_pos hb]
    rfl
  · obtain ⟨p, hstart, hmore, hpoint, hrange⟩ := startChar_two hb
    rw [he, hv, List.cons_append, List.singleton_append, decodeFrom_start hstart,
      decodeFrom_last hmore ((hrange _).mpr hb₁), hpoint]
  · obtain ⟨p, hstart, hmore, hpoint, hrange⟩ := startChar_three hb
    rw [he, hv, List.cons_append, List.cons_append, List.singleton_append, decodeFrom_start hstart,
      decodeFrom_more hmore ((hrange _).mpr hb₁), decodeFrom_last rfl hb₂, hpoint]
    refine congrArg₂ List.cons ?_ rfl
    dsimp only
    omega
  · obtain ⟨p, hstart, hmore, hpoint, hrange⟩ := startChar_four hb
    rw [he, hv, List.cons_append, List.cons_append, List.cons_append, List.singleton_append,
      decodeFrom_start hstart, decodeFrom_more hmore ((hrange _).mpr hb₁), decodeFrom_more rfl hb₂,
      decodeFrom_last rfl hb₃, hpoint]
    refine congrArg₂ List.cons ?_ rfl
    dsimp only
    omega

theorem ValidUtf8.nil : ValidUtf8 [] := ⟨[], rfl⟩

theorem ValidUtf8.cons {c : Char} {bs : Bytes} (h : ValidUtf8 bs) :
    ValidUtf8 (String.utf8EncodeChar c ++ bs) := by
  obtain ⟨text, rfl⟩ := h
  exact ⟨c :: text, List.flatMap_cons⟩

theorem decodesFrom_of_encode {c : Char} {bs : Bytes} (h : decodesFrom none bs = true) :
    decodesFrom none (String.utf8EncodeChar c ++ bs) = true := by
  rcases encode_cases c with ⟨b, hb, -, he⟩ | ⟨b, b₁, hb, -, he⟩ | ⟨b, b₁, b₂, hb, -, he⟩ |
    ⟨b, b₁, b₂, b₃, hb, -, he⟩
  · rw [he]
    exact decodesFrom_cons.mpr (.inl ⟨hb, h⟩)
  · rw [he]
    exact decodesFrom_cons.mpr (.inr (.inl ⟨b₁, bs, rfl, hb, h⟩))
  · rw [he]
    exact decodesFrom_cons.mpr (.inr (.inr (.inl ⟨b₁, b₂, bs, rfl, hb, h⟩)))
  · rw [he]
    exact decodesFrom_cons.mpr (.inr (.inr (.inr ⟨b₁, b₂, b₃, bs, rfl, hb, h⟩)))

/-- Strict decoding takes the bytes of texts, and no others. -/
theorem decodesFrom_iff_validUtf8 {bs : Bytes} : decodesFrom none bs = true ↔ ValidUtf8 bs := by
  constructor
  · intro h
    induction hn : bs.length using Nat.strongRecOn generalizing bs with
    | ind n ih =>
        cases bs with
        | nil => exact .nil
        | cons b bs =>
            rw [List.length_cons] at hn
            rcases decodesFrom_cons.mp h with ⟨hb, h⟩ | ⟨b₁, rest, rfl, hb, h⟩ |
              ⟨b₁, b₂, rest, rfl, hb, h⟩ | ⟨b₁, b₂, b₃, rest, rfl, hb, h⟩
            · obtain ⟨c, hc⟩ := encode_one hb
              have hrest := ih bs.length (by omega) h rfl
              exact (congrArg (· ++ bs) hc ▸ hrest.cons : ValidUtf8 ([b] ++ bs))
            · obtain ⟨c, hc⟩ := encode_two hb
              have hrest := ih rest.length (by rw [List.length_cons] at hn; omega) h rfl
              exact (congrArg (· ++ rest) hc ▸ hrest.cons : ValidUtf8 ([b, b₁] ++ rest))
            · obtain ⟨c, hc⟩ := encode_three hb
              have hrest := ih rest.length (by simp only [List.length_cons] at hn; omega) h rfl
              exact (congrArg (· ++ rest) hc ▸ hrest.cons : ValidUtf8 ([b, b₁, b₂] ++ rest))
            · obtain ⟨c, hc⟩ := encode_four hb
              have hrest := ih rest.length (by simp only [List.length_cons] at hn; omega) h rfl
              exact (congrArg (· ++ rest) hc ▸ hrest.cons : ValidUtf8 ([b, b₁, b₂, b₃] ++ rest))
  · rintro ⟨text, rfl⟩
    induction text with
    | nil => rfl
    | cons c text ih =>
        rw [List.flatMap_cons]
        exact decodesFrom_of_encode ih

end AgentWeb.Utf8
