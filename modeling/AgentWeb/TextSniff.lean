import AgentWeb.Utf8

namespace AgentWeb.TextSniff

open PyText PyDecode UploadChecks Utf8

/-- A text, or one that is cut off behind some of its bytes. -/
def CutOff (head : Bytes) : Prop := ∃ text, ValidUtf8 text ∧ head <+: text

def Incomplete (cut : Bytes) : Prop :=
  cut ≠ [] ∧ ∃ c, cut <+: String.utf8EncodeChar c ∧ cut.length < (String.utf8EncodeChar c).length

def EndsInside (head : Bytes) : Prop :=
  ∃ text cut, Incomplete cut ∧ head = List.flatMap String.utf8EncodeChar text ++ cut

/-- The characters right before an incomplete one and its bytes are three bytes
together, or the whole head is less. -/
def AlignedCut (head : Bytes) : Prop :=
  ∃ kept last cut, Incomplete cut ∧ head = (kept ++ last).flatMap String.utf8EncodeChar ++ cut ∧
    ((last.flatMap String.utf8EncodeChar).length + cut.length = 3 ∨
      kept = [] ∧ (last.flatMap String.utf8EncodeChar).length + cut.length < 3)

/-- A character of a text ends three bytes before the end, or the head is too short
for that. -/
def EndsThreeBefore (head : Bytes) : Prop :=
  ∃ kept rest, head = kept ++ rest ∧ ValidUtf8 kept ∧
    (rest.length = 3 ∨ kept = [] ∧ rest.length < 3)

theorem endsThreeBefore_iff {head : Bytes} :
    EndsThreeBefore head ↔ ValidUtf8 (head.take (head.length - 3)) := by
  constructor
  · rintro ⟨kept, rest, rfl, hkept, hlen | ⟨rfl, hlen⟩⟩
    · rwa [List.length_append, hlen, Nat.add_sub_cancel, List.take_left]
    · rw [List.nil_append, Nat.sub_eq_zero_of_le hlen.le, List.take_zero]
      exact hkept
  · intro h
    refine ⟨_, head.drop (head.length - 3), (List.take_append_drop _ _).symm, h, ?_⟩
    rw [List.length_drop, List.take_eq_nil_iff]
    omega

theorem isProbablyText_iff (head : Bytes) : isProbablyText head = true ↔
    0 ∉ head ∧ (ValidUtf8 head ∨ EndsThreeBefore head) := by
  rw [isProbablyText, endsThreeBefore_iff]
  by_cases hnul : 0 ∈ head
  · simp [hnul]
  · simp [hnul, decodesFrom_iff_validUtf8]

theorem encode_inj {c d : Char} {xs ys : Bytes}
    (h : String.utf8EncodeChar c ++ xs = String.utf8EncodeChar d ++ ys) : c = d := by
  have hdecode := congrArg (fun bs => bs.toByteArray.utf8DecodeChar? 0) h
  simpa only [List.toByteArray_append, ByteArray.utf8DecodeChar?_utf8EncodeChar_append,
    Option.some_inj] using hdecode

theorem prefix_of_encode_prefix {kept text : List Char}
    (h : kept.flatMap String.utf8EncodeChar <+: text.flatMap String.utf8EncodeChar) :
    kept <+: text := by
  induction kept generalizing text with
  | nil => exact List.nil_prefix
  | cons c kept ih =>
      obtain ⟨rest, h⟩ := h
      rw [List.flatMap_cons, List.append_assoc] at h
      cases text with
      | nil =>
          rw [List.flatMap_nil, List.append_eq_nil_iff] at h
          exact absurd h.1 String.utf8EncodeChar_ne_nil
      | cons d text =>
          rw [List.flatMap_cons] at h
          obtain rfl := encode_inj h
          rw [List.append_cancel_left_eq] at h
          exact List.cons_prefix_cons.mpr ⟨rfl, ih ⟨rest, h⟩⟩

theorem endsThreeBefore_cut_iff (text : List Char) {cut : Bytes} (hcut : cut.length ≤ 3) :
    EndsThreeBefore (text.flatMap String.utf8EncodeChar ++ cut) ↔
      ∃ kept last, text = kept ++ last ∧
        ((last.flatMap String.utf8EncodeChar).length + cut.length = 3 ∨
          kept = [] ∧ (last.flatMap String.utf8EncodeChar).length + cut.length < 3) := by
  constructor
  · rintro ⟨_, rest, heq, ⟨kept, rfl⟩, hlen⟩
    have hpre : kept.flatMap String.utf8EncodeChar <+: text.flatMap String.utf8EncodeChar := by
      refine List.prefix_of_prefix_length_le (List.prefix_append _ rest)
        (heq ▸ List.prefix_append _ cut) ?_
      have hsize := congrArg List.length heq
      rw [List.length_append, List.length_append] at hsize
      rcases hlen with hlen | ⟨hnil, -⟩
      · omega
      · rw [hnil]
        exact Nat.zero_le _
    obtain ⟨last, rfl⟩ := prefix_of_encode_prefix hpre
    rw [List.flatMap_append, List.append_assoc, List.append_cancel_left_eq] at heq
    refine ⟨kept, last, rfl, ?_⟩
    rw [← heq, List.length_append] at hlen
    refine hlen.imp_right fun h => ⟨?_, h.2⟩
    by_contra hne
    obtain ⟨c, kept, rfl⟩ := List.exists_cons_of_ne_nil hne
    rw [List.flatMap_cons, List.append_eq_nil_iff] at h
    exact String.utf8EncodeChar_ne_nil h.1.1
  · rintro ⟨kept, last, rfl, hlen⟩
    refine ⟨_, last.flatMap String.utf8EncodeChar ++ cut, ?_, ⟨kept, rfl⟩, ?_⟩
    · rw [List.flatMap_append, List.append_assoc]
    · rw [List.length_append]
      refine hlen.imp_right fun h => ⟨?_, h.2⟩
      rw [h.1, List.flatMap_nil]

theorem Incomplete.length_le {cut : Bytes} (h : Incomplete cut) : cut.length ≤ 3 := by
  obtain ⟨-, c, -, hlen⟩ := h
  have hsize := c.utf8Size_le_four
  rw [String.length_utf8EncodeChar] at hlen
  omega

theorem cutOff_iff {head : Bytes} : CutOff head ↔ ValidUtf8 head ∨ EndsInside head := by
  constructor
  · rintro ⟨_, ⟨text, rfl⟩, hpre⟩
    induction text generalizing head with
    | nil =>
        rw [List.flatMap_nil, List.prefix_nil] at hpre
        exact .inl (hpre ▸ .nil)
    | cons c text ih =>
        rw [List.flatMap_cons] at hpre
        rcases List.prefix_or_prefix_of_prefix hpre (List.prefix_append _ _) with hin | ⟨rest, rfl⟩
        · by_cases hnil : head = []
          · exact .inl (hnil ▸ .nil)
          · by_cases hlen : head.length < (String.utf8EncodeChar c).length
            · exact .inr ⟨[], head, ⟨hnil, c, hin, hlen⟩, rfl⟩
            · obtain rfl := hin.eq_of_length_le (Nat.le_of_not_lt hlen)
              exact .inl ⟨[c], List.flatMap_singleton ..⟩
        · rcases ih ((List.prefix_append_right_inj _).mp hpre) with hv | ⟨text', cut, hcut, rfl⟩
          · exact .inl hv.cons
          · exact .inr ⟨c :: text', cut, hcut, by rw [List.flatMap_cons, List.append_assoc]⟩
  · rintro (h | ⟨text, cut, ⟨-, c, hpre, -⟩, rfl⟩)
    · exact ⟨head, h, List.prefix_rfl⟩
    · refine ⟨_, ⟨text ++ [c], rfl⟩, ?_⟩
      rw [List.flatMap_append, List.flatMap_singleton]
      exact (List.prefix_append_right_inj _).mpr hpre

theorem alignedCut_iff {head : Bytes} :
    AlignedCut head ↔ EndsInside head ∧ EndsThreeBefore head := by
  constructor
  · rintro ⟨kept, last, cut, hcut, rfl, hlen⟩
    exact ⟨⟨kept ++ last, cut, hcut, rfl⟩,
      (endsThreeBefore_cut_iff _ hcut.length_le).mpr ⟨kept, last, rfl, hlen⟩⟩
  · rintro ⟨⟨text, cut, hcut, rfl⟩, hends⟩
    obtain ⟨kept, last, rfl, hlen⟩ := (endsThreeBefore_cut_iff _ hcut.length_le).mp hends
    exact ⟨kept, last, cut, hcut, rfl, hlen⟩

/-- Dropping three bytes is right for a cut-off text if characters end there, and
for other bytes if they are no text up to there. -/
theorem isProbablyText_cutOff_iff (head : Bytes) :
    (isProbablyText head = true ↔ 0 ∉ head ∧ CutOff head) ↔
      0 ∈ head ∨ ValidUtf8 head ∨ AlignedCut head ∨ ¬CutOff head ∧ ¬EndsThreeBefore head := by
  rw [isProbablyText_iff, alignedCut_iff, cutOff_iff]
  tauto

/-- A euro sign and the first of two bytes are a cut-off text that is turned down. -/
theorem not_isProbablyText_euro :
    ¬∀ head : Bytes, isProbablyText head = true ↔ 0 ∉ head ∧ CutOff head := by
  intro h
  have hcut : CutOff [0xE2, 0x82, 0xAC, 0xC3] :=
    ⟨[0xE2, 0x82, 0xAC, 0xC3, 0xA9], ⟨['€', 'é'], by decide⟩, [0xA9], rfl⟩
  have htext := (h [0xE2, 0x82, 0xAC, 0xC3]).mpr ⟨by decide, hcut⟩
  revert htext
  decide

end AgentWeb.TextSniff
