import AgentWeb.Pump

namespace AgentWeb.LineCaps

open PyText PyDecode PyJson Protocol Loops Demux Frames CutLines Chunking Delimited Segments NextLine
  Pump

section

variable [Interpreter]

def follow (settings : Settings) (long : Bytes → Prop) [DecidablePred long] :
    Log → List Bytes → Log × List Str
  | log, [] => (log, [])
  | log, line :: lines =>
      if long line then
        follow settings long { log with oversizeLines := log.oversizeLines + 1 } lines
      else match relayLine settings log (decode line) with
        | .stop log out => (log, out)
        | .again log out =>
            let r := follow settings long log lines
            (r.1, out ++ r.2)

def outcomeOf {σ : Type*} (transport : Transport σ) (settings : Settings) (s : σ) (log : Log) :
    Log × List Str :=
  let r := loop (pumpPass transport settings) (fun s => transport.rank s.1) (s, log)
  (r.1.2, r.2)

variable {σ : Type*} {transport : Transport σ} {settings : Settings} {s : σ} {log : Log}

theorem outcomeOf_oversize {t : σ} {line : Str}
    (hread : transport.readLine settings.maxLineBytes s = (t, line, true))
    (hdrops : transport.takeOversizeDrops t = (t, 0)) : outcomeOf transport settings s log =
      outcomeOf transport settings t { log with oversizeLines := log.oversizeLines + 1 } := by
  have hpass : pumpPass transport settings (s, log) =
      .again (t, { log with oversizeLines := log.oversizeLines + 1 }) [] := by
    simp [pumpPass, hread, hdrops]
  rw [outcomeOf, loop_again (pumpPass_falls transport settings) hpass]
  rfl

theorem outcomeOf_end {t u : σ} {n : Nat}
    (hread : transport.readLine settings.maxLineBytes s = (t, [], false))
    (hdrops : transport.takeOversizeDrops t = (u, n)) : outcomeOf transport settings s log =
      ({ log with oversizeLines := log.oversizeLines + n }, []) := by
  have hpass : pumpPass transport settings (s, log) =
      .stop (u, { log with oversizeLines := log.oversizeLines + n }) [] := by
    simp [pumpPass, hread, hdrops]
  rw [outcomeOf, loop_stop hpass]

theorem outcomeOf_line {t u : σ} {n : Nat} {line : Str} (hline : line ≠ [])
    (hread : transport.readLine settings.maxLineBytes s = (t, line, false))
    (hdrops : transport.takeOversizeDrops t = (u, n)) : outcomeOf transport settings s log =
      match relayLine settings { log with oversizeLines := log.oversizeLines + n } line with
      | .stop log out => (log, out)
      | .again log out =>
          let r := outcomeOf transport settings u log
          (r.1, out ++ r.2) := by
  have hpass : pumpPass transport settings (s, log) = onLog u
      (relayLine settings { log with oversizeLines := log.oversizeLines + n } line) := by
    simp [pumpPass, hread, hdrops, hline]
  cases hrelay : relayLine settings { log with oversizeLines := log.oversizeLines + n } line with
  | stop log' out =>
      rw [hrelay] at hpass
      rw [outcomeOf, loop_stop hpass]
  | again log' out =>
      rw [hrelay] at hpass
      rw [outcomeOf, loop_again (pumpPass_falls transport settings) hpass]
      rfl

theorem follow_dropWhile (long : Bytes → Prop) [DecidablePred long] (log : Log)
    (lines : List Bytes) : follow settings long log lines = follow settings long
      { log with oversizeLines := log.oversizeLines + (lines.takeWhile fun l => long l).length }
      (lines.dropWhile fun l => long l) := by
  induction lines generalizing log with
  | nil => rfl
  | cons line lines ih =>
      by_cases h : long line
      · rw [follow, if_pos h, ih]
        simp [h, Nat.add_assoc, Nat.add_comm 1]
      · simp [h]

omit [Interpreter] in
theorem segments_ne_nil (text : Bytes) : ∀ line ∈ segments text, line ≠ [] := by
  induction text using delimited_induction (d := newline) with
  | last line h =>
      rw [segments_last h]
      split
      next => exact fun line hmem => absurd hmem List.not_mem_nil
      next hne => exact List.forall_mem_singleton.mpr hne
  | line line text h ih =>
      rw [segments_line h, List.forall_mem_cons]
      exact ⟨by simp, ih⟩

theorem container_follows (settings : Settings) {cfg : Config} {s : DockerStream}
    {todo : List Frame} (log : Log)
    (hs : Framed cfg s todo) (hd : s.discarding = false) :
    outcomeOf (containerTransport cfg) settings (s, s.oversizeLines) log =
      follow settings (Long cfg) log (segments (s.pending ++ toCome cfg s todo)) := by
  induction hn : (segments (s.pending ++ toCome cfg s todo)).length using Nat.strongRecOn
    generalizing s todo log with
  | ind n ih =>
      obtain ⟨hline, hcount, hgoes⟩ := readline_framed hs
      have hne := segments_ne_nil (s.pending ++ toCome cfg s todo)
      rw [follow_dropWhile]
      simp only [left, hd, Bool.false_eq_true, if_false] at hline hcount hgoes
      generalize segments (s.pending ++ toCome cfg s todo) = lines at *
      have hdrops : (containerTransport cfg).takeOversizeDrops
          ((readline cfg s).1, s.oversizeLines) = (((readline cfg s).1,
            (readline cfg s).1.oversizeLines), (lines.takeWhile fun l => Long cfg l).length) := by
        simp only [containerTransport, hcount, Nat.add_sub_cancel_left]
      cases hrest : lines.dropWhile fun l => Long cfg l with
      | nil =>
          have hread : (containerTransport cfg).readLine settings.maxLineBytes (s, s.oversizeLines) =
              (((readline cfg s).1, s.oversizeLines), [], false) := by
            simp only [containerTransport, hline, hrest]
            rfl
          rw [outcomeOf_end hread hdrops, follow]
      | cons line rest =>
          rw [hrest] at hline hgoes
          have hmem : line ∈ lines :=
            (List.dropWhile_suffix _).subset (hrest ▸ List.mem_cons_self)
          have hlong : ¬ Long cfg line := by
            have hhead := List.head_dropWhile_not (fun l => Long cfg l) (l := lines)
              (by rw [hrest]; simp)
            simpa [hrest] using hhead
          have hread : (containerTransport cfg).readLine settings.maxLineBytes (s, s.oversizeLines) =
              (((readline cfg s).1, s.oversizeLines), decode line, false) := by
            simp only [containerTransport, hline]
            rfl
          obtain ⟨todo', hframed, hdisc, hleft⟩ := hgoes (by simp)
          rw [outcomeOf_line (fun h => hne line hmem (decode_eq_nil.mp h)) hread hdrops, follow,
            if_neg hlong]
          have hshort : rest.length < n := by
            have hlen := (List.dropWhile_suffix (fun l => Long cfg l) (l := lines)).length_le
            rw [hrest, List.length_cons] at hlen
            omega
          have hnext (log : Log) : outcomeOf (containerTransport cfg) settings
              ((readline cfg s).1, (readline cfg s).1.oversizeLines) log =
                follow settings (Long cfg) log rest := by
            rw [ih rest.length hshort log hframed hdisc (by rw [hleft]; rfl), hleft, List.tail_cons]
          simp only [hnext]

omit [Interpreter] in
theorem take_ne_nil {n : Nat} (hn : 1 ≤ n) {line : Str} (h : line ≠ []) : line.take n ≠ [] := by
  rw [Ne, List.take_eq_nil_iff, not_or]
  exact ⟨by omega, h⟩

omit [Interpreter] in
theorem getLast?_take {line : Str} (h : 10 ∉ line) (n : Nat) : (line.take n).getLast? ≠ some 10 :=
  fun hlast => h (List.mem_of_mem_take (List.mem_of_getLast? hlast))

def Behind (tail : Str) : Prop := tail = [] ∨ ∃ rest, tail = 10 :: rest

omit [Interpreter] in
theorem readline_behind {line tail : Str} (h : 10 ∉ line) (htail : Behind tail) (n : Nat) :
    Pump.readline n (line ++ tail) = ((line ++ tail.take 1).take n,
      (line ++ tail).drop ((line ++ tail.take 1).take n).length) := by
  have hall : ∀ c ∈ line, (c != 10) = true := fun c hc => bne_iff_ne.mpr fun he => h (he ▸ hc)
  have hsize : ¬ (n : Int) < 0 := by omega
  obtain rfl | ⟨rest, rfl⟩ := htail
  · have htake : line.takeWhile (· != 10) = line := List.takeWhile_eq_self_iff.mpr hall
    simp only [Pump.readline, List.append_nil, List.take_nil, htake, if_neg h, if_neg hsize,
      Int.toNat_natCast]
  · have htake : (line ++ 10 :: rest).takeWhile (· != 10) = line := by
      rw [List.takeWhile_append_of_pos hall, List.takeWhile_cons_of_neg (by simp),
        List.append_nil]
    simp only [Pump.readline, htake, List.mem_append, List.mem_cons, true_or, or_true, if_true,
      if_neg hsize, Int.toNat_natCast, List.take_succ_cons, List.take_zero]

omit [Interpreter] in
theorem readline_within {line tail : Str} (h : 10 ∉ line) (htail : Behind tail) {n : Nat}
    (hfar : n ≤ line.length ∨ tail = []) : Pump.readline n (line ++ tail) =
      (line.take n, line.drop (line.take n).length ++ tail) := by
  have htake : (line ++ tail.take 1).take n = line.take n := by
    rcases hfar with hge | rfl
    · exact List.take_append_of_le_length hge
    · rw [List.take_nil, List.append_nil]
  rw [readline_behind h htail, htake, List.drop_append_of_le_length (List.length_take_le' n line)]

omit [Interpreter] in
theorem readline_whole {line tail : Str} (h : 10 ∉ line) (htail : Behind tail) {n : Nat}
    (hlt : line.length < n) :
    Pump.readline n (line ++ tail) = (line ++ tail.take 1, tail.drop 1) := by
  have hone : (tail.take 1).length ≤ 1 := List.length_take_le 1 tail
  rw [readline_behind h htail, List.take_of_length_le (by rw [List.length_append]; omega)]
  obtain rfl | ⟨rest, rfl⟩ := htail <;> simp

omit [Interpreter] in
theorem drain_behind {n : Nat} (hn : 1 ≤ n) {line tail : Str} (h : 10 ∉ line)
    (htail : Behind tail) : (loop (drainPass n) List.length (line ++ tail)).1 = tail.drop 1 := by
  induction hm : line.length using Nat.strongRecOn generalizing line with
  | ind m ih =>
      by_cases hfar : line ≠ [] ∧ (n ≤ line.length ∨ tail = [])
      · have hread := readline_within h htail hfar.2
        have hne := take_ne_nil hn hfar.1
        have hpass : drainPass n (line ++ tail) =
            .again (line.drop (line.take n).length ++ tail) [] := by
          simp only [drainPass, hread]
          rw [if_neg (not_or.mpr ⟨hne, getLast?_take h n⟩)]
        have hpos := List.length_pos_iff.mpr hne
        have hline := List.length_pos_iff.mpr hfar.1
        rw [loop_again (drainPass_falls n) hpass]
        exact ih _ (by rw [List.length_drop]; omega) (fun hmem => h (List.mem_of_mem_drop hmem)) rfl
      · have hlt : line.length < n := by
          by_contra hge
          have hpos : line ≠ [] := List.length_pos_iff.mp (by omega)
          exact hfar ⟨hpos, .inl (by omega)⟩
        have hread := readline_whole h htail hlt
        have hstop : line ++ tail.take 1 = [] ∨ (line ++ tail.take 1).getLast? = some 10 := by
          obtain rfl | ⟨rest, rfl⟩ := htail
          · exact .inl (by simpa using hfar)
          · exact .inr (by simp)
        have hpass : drainPass n (line ++ tail) = .stop (tail.drop 1) [] := by
          simp only [drainPass, hread]
          rw [if_pos hstop]
        rw [loop_stop hpass]

omit [Interpreter] in
theorem readCappedLine_behind {n : Nat} (hn : 1 ≤ n) {line tail : Str} (h : 10 ∉ line)
    (htail : Behind tail) : readCappedLine n (line ++ tail) =
      if n ≤ line.length then (tail.drop 1, line.take n, true)
      else (tail.drop 1, line ++ tail.take 1, false) := by
  rw [readCappedLine, if_neg (by omega)]
  split
  next hge =>
    have hread := readline_within h htail (.inl hge)
    have hne := take_ne_nil hn (List.length_pos_iff.mp (by omega : 0 < line.length))
    have hfull : ¬ ((line.take n).length : Int) < n := by
      rw [List.length_take, Nat.min_eq_left hge]
      exact Int.lt_irrefl _
    have hdrain := drain_behind hn
      (fun hmem => h (List.mem_of_mem_drop hmem) : 10 ∉ line.drop (line.take n).length) htail
    simp only [hread]
    rw [if_neg (not_or.mpr ⟨hne, not_or.mpr ⟨getLast?_take h n, hfull⟩⟩), hdrain]
  next hlt =>
    simp only [readline_whole h htail (Nat.not_le.mp hlt)]
    rw [if_pos]
    obtain rfl | ⟨rest, rfl⟩ := htail
    · exact .inr (.inr (by simpa using hlt))
    · exact .inr (.inl (by simp))

omit [Interpreter] in
theorem universal_plain {text : Str} (h : 13 ∉ text) : universal text = text := by
  induction text with
  | nil => rfl
  | cons c text ih =>
      rw [List.mem_cons, not_or] at h
      rw [universal, if_neg (Ne.symm h.1), ih h.2]
      rintro rest rfl
      exact absurd rfl h.1

omit [Interpreter] in
theorem ten_not_mem {line : Bytes} (h : newline ∉ line) : 10 ∉ line.map UInt8.toNat := by
  intro hmem
  obtain ⟨b, hb, hten⟩ := List.mem_map.mp hmem
  exact h ((UInt8.toNat_inj.mp hten : b = newline) ▸ hb)

omit [Interpreter] in
theorem decode_line {line : Bytes} (h : Ascii line) :
    decode (line ++ [newline]) = line.map UInt8.toNat ++ [10] := by
  have hascii : Ascii (line ++ [newline]) :=
    List.forall_mem_append.mpr ⟨h, List.forall_mem_singleton.mpr (by decide)⟩
  rw [decode_ascii hascii, List.map_append]
  rfl

def AtCap (cap : Nat) (line : Bytes) : Prop := cap ≤ (beforeNewline line).length

instance (cap : Nat) (line : Bytes) : Decidable (AtCap cap line) :=
  inferInstanceAs (Decidable (_ ≤ _))

theorem process_follows {cap : Nat} (hcap : 1 ≤ cap) (budget : Int) {output : Bytes}
    (hascii : Ascii output) (log : Log) :
    outcomeOf processTransport ⟨cap, budget⟩ (output.map UInt8.toNat) log =
      follow ⟨cap, budget⟩ (AtCap cap) log (segments output) := by
  have hdrops (text : Str) : processTransport.takeOversizeDrops text = (text, 0) := rfl
  have hempty (log : Log) : outcomeOf processTransport ⟨cap, budget⟩ [] log = (log, []) := by
    have hread := readCappedLine_behind hcap (List.not_mem_nil : 10 ∉ ([] : Str)) (.inl rfl)
    rw [List.length_nil, if_neg (by omega)] at hread
    exact outcomeOf_end hread (hdrops [])
  induction output using delimited_induction (d := newline) generalizing log with
  | last line h =>
      have hread := readCappedLine_behind hcap (ten_not_mem h) (.inl rfl)
      rw [List.append_nil, List.take_nil, List.append_nil, List.drop_nil, List.length_map] at hread
      rw [segments_last h]
      by_cases hnil : line = []
      · subst hnil
        exact hempty log
      · have hlong : AtCap cap line ↔ cap ≤ line.length := by rw [AtCap, beforeNewline_last h]
        rw [if_neg hnil, follow, ← decode_ascii hascii]
        rw [← decode_ascii hascii] at hread
        by_cases hge : cap ≤ line.length
        · rw [if_pos hge] at hread
          rw [if_pos (hlong.mpr hge), outcomeOf_oversize hread (hdrops []), hempty]
          rfl
        · rw [if_neg hge] at hread
          rw [if_neg (mt hlong.mp hge),
            outcomeOf_line (fun he => hnil (decode_eq_nil.mp he)) hread (hdrops [])]
          simp only [hempty, Nat.add_zero]
          rfl
  | line line text h ih =>
      rw [Ascii, List.forall_mem_append, List.forall_mem_cons] at hascii
      obtain ⟨hline, -, htext⟩ := hascii
      have hread := readCappedLine_behind hcap (ten_not_mem h)
        (.inr ⟨text.map UInt8.toNat, rfl⟩)
      rw [List.length_map, List.take_succ_cons, List.take_zero, List.drop_succ_cons,
        List.drop_zero] at hread
      have hmap : (line ++ newline :: text).map UInt8.toNat =
          line.map UInt8.toNat ++ 10 :: text.map UInt8.toNat := by
        rw [List.map_append, List.map_cons]
        rfl
      have hlong : AtCap cap (line ++ [newline]) ↔ cap ≤ line.length := by
        rw [AtCap, beforeNewline_line h]
      rw [segments_line h, follow, hmap, decode_line hline]
      by_cases hge : cap ≤ line.length
      · rw [if_pos hge] at hread
        rw [if_pos (hlong.mpr hge), outcomeOf_oversize hread (hdrops _), ih htext]
      · rw [if_neg hge] at hread
        rw [if_neg (mt hlong.mp hge), outcomeOf_line (by simp) hread (hdrops _)]
        simp only [ih htext, Nat.add_zero]

def Ends (line : Str) : Prop :=
  match payloadOf (rstripNewlines line) with
  | .error _ => True
  | .ok payload => payload.any (fun d => isStr (fetch d "type") "result") = true

/-- A line of exactly `cap` characters only comes behind a shorter one that ends
the run. -/
def CapFree (cap : Nat) (lines : List Bytes) : Prop :=
  ∀ before line after, lines = before ++ line :: after → (beforeNewline line).length = cap →
    ∃ last ∈ before, (beforeNewline last).length < cap ∧ Ends (decode last)

theorem relayLine_cases (settings : Settings) (log : Log) (text : Str) :
    ∃ log', log'.oversizeLines = log.oversizeLines ∧
      (¬ Ends text ∧ relayLine settings log text = .again log' [rstripNewlines text] ∨
        Ends text ∧ ∃ out, relayLine settings log text = .stop log' out ∧
          ∀ line ∈ out, line = rstripNewlines text) := by
  cases hpay : payloadOf (rstripNewlines text) with
  | error e =>
      have hend : Ends text := by simp only [Ends, hpay]
      refine ⟨{ log with raised := some e }, rfl, .inr ⟨hend, [], ?_, ?_⟩⟩
      · simp only [relayLine, hpay]
      · exact fun line h => absurd h List.not_mem_nil
  | ok payload =>
      have hends : Ends text ↔ (payload.any fun d => isStr (fetch d "type") "result") = true := by
        simp only [Ends, hpay]
      obtain ⟨log', hcount, hrelay⟩ : ∃ log', log'.oversizeLines = log.oversizeLines ∧
          relayLine settings log text =
            if (payload.any fun d => isStr (fetch d "type") "result") = true then
              .stop { log' with sawResult := true } [rstripNewlines text]
            else .again log' [rstripNewlines text] := by
        simp only [relayLine, hpay]
        refine ⟨_, ?_, rfl⟩
        split <;> rfl
      by_cases hresult : (payload.any fun d => isStr (fetch d "type") "result") = true
      · rw [if_pos hresult] at hrelay
        exact ⟨{ log' with sawResult := true }, hcount,
          .inr ⟨hends.mpr hresult, _, hrelay, fun line h => List.mem_singleton.mp h⟩⟩
      · rw [if_neg hresult] at hrelay
        exact ⟨log', hcount, .inl ⟨mt hends.mp hresult, hrelay⟩⟩

def Plain (lines : List Bytes) : Prop :=
  ∀ line ∈ lines, (rstripNewlines (decode line)).length = (beforeNewline line).length

theorem follow_oversize_le (settings : Settings) (long : Bytes → Prop) [DecidablePred long] (log : Log)
    (lines : List Bytes) :
    log.oversizeLines ≤ (follow settings long log lines).1.oversizeLines := by
  induction lines generalizing log with
  | nil => exact Nat.le_refl _
  | cons line lines ih =>
      rw [follow]
      split
      · have hle := ih { log with oversizeLines := log.oversizeLines + 1 }
        exact Nat.le_trans (Nat.le_succ _) hle
      · obtain ⟨log', hcount, ⟨-, hrelay⟩ | ⟨-, out, hrelay, -⟩⟩ :=
          relayLine_cases settings log (decode line)
        · rw [hrelay, ← hcount]
          exact ih log'
        · rw [hrelay]
          exact hcount.ge

theorem follow_short (settings : Settings) {lines : List Bytes} (h : Plain lines) (cap : Nat)
    (log : Log) :
    ∀ line ∈ (follow settings (AtCap cap) log lines).2, line.length < cap := by
  induction lines generalizing log with
  | nil => exact fun line hmem => absurd hmem List.not_mem_nil
  | cons line lines ih =>
      rw [Plain, List.forall_mem_cons] at h
      rw [follow]
      split
      · exact ih h.2 _
      next hlong =>
        have hshort : (rstripNewlines (decode line)).length < cap := by
          rw [h.1]
          exact Nat.not_le.mp hlong
        obtain ⟨log', -, ⟨-, hrelay⟩ | ⟨-, out, hrelay, hout⟩⟩ :=
          relayLine_cases settings log (decode line)
        · rw [hrelay]
          exact List.forall_mem_cons.mpr ⟨hshort, ih h.2 log'⟩
        · rw [hrelay]
          intro l hl
          rw [hout l hl]
          exact hshort

omit [Interpreter] in
theorem append_cons_eq_cons {α : Type*} {before after lines : List α} {a line : α}
    (h : a :: lines = before ++ line :: after) :
    before = [] ∧ line = a ∨ ∃ rest, before = a :: rest ∧ lines = rest ++ line :: after := by
  cases before with
  | nil => exact .inl ⟨rfl, (List.cons.inj h).1.symm⟩
  | cons b rest => exact .inr ⟨rest, by rw [(List.cons.inj h).1], (List.cons.inj h).2⟩

theorem capFree_cons {cap : Nat} {line : Bytes} {lines : List Bytes}
    (hne : (beforeNewline line).length ≠ cap)
    (hgo : ¬ ((beforeNewline line).length < cap ∧ Ends (decode line))) :
    CapFree cap (line :: lines) ↔ CapFree cap lines := by
  constructor
  · intro h before l after heq hcap
    obtain ⟨last, hmem, hlast⟩ := h (line :: before) l after (by rw [heq, List.cons_append]) hcap
    rcases List.mem_cons.mp hmem with rfl | hmem
    · exact absurd hlast hgo
    · exact ⟨last, hmem, hlast⟩
  · intro h before l after heq hcap
    obtain ⟨rfl, rfl⟩ | ⟨rest, rfl, hsplit⟩ := append_cons_eq_cons heq
    · exact absurd hcap hne
    · obtain ⟨last, hmem, hlast⟩ := h rest l after hsplit hcap
      exact ⟨last, List.mem_cons_of_mem _ hmem, hlast⟩

/-- The two caps give the same lines and count the same exactly when no line
that is reached has `cap` characters. -/
theorem follow_agree_iff (settings : Settings) {cap : Nat} {cfg : Config} (hover : ∀ n, cfg.Over n ↔ cap < n)
    {lines : List Bytes} (h : Plain lines) (log : Log) :
    let p := follow settings (AtCap cap) log lines
    let c := follow settings (Long cfg) log lines
    (p.2 = c.2 ∧ p.1.oversizeLines = c.1.oversizeLines) ↔ CapFree cap lines := by
  induction lines generalizing log with
  | nil =>
      refine iff_of_true ⟨rfl, rfl⟩ ?_
      intro before line after heq
      exact absurd heq.symm (by simp)
  | cons line lines ih =>
      rw [Plain, List.forall_mem_cons] at h
      have hle := follow_oversize_le settings (AtCap cap)
        { log with oversizeLines := log.oversizeLines + 1 } lines
      have hshort := follow_short settings h.2 cap
        { log with oversizeLines := log.oversizeLines + 1 }
      obtain ⟨log', hcount, hrelay⟩ := relayLine_cases settings log (decode line)
      rcases Nat.lt_trichotomy (beforeNewline line).length cap with hlt | heq | hgt
      · have hp : ¬ AtCap cap line := Nat.not_le.mpr hlt
        have hc : ¬ Long cfg line := by
          rw [Long, hover]
          omega
        simp only [follow, if_neg hp, if_neg hc]
        rcases hrelay with ⟨hgo, hrelay⟩ | ⟨hend, out, hrelay, -⟩
        · have hagree := ih h.2 log'
          simp only at hagree
          rw [capFree_cons (by omega) fun hend => hgo hend.2, ← hagree]
          simp only [hrelay, List.append_cancel_left_eq]
        · rw [hrelay]
          refine iff_of_true ⟨rfl, rfl⟩ fun before l after hsplit hcap => ?_
          obtain ⟨rfl, rfl⟩ | ⟨rest, rfl, -⟩ := append_cons_eq_cons hsplit
          · omega
          · exact ⟨line, List.mem_cons_self, hlt, hend⟩
      · have hp : AtCap cap line := heq.ge
        have hc : ¬ Long cfg line := by
          rw [Long, hover]
          omega
        simp only [follow, if_pos hp, if_neg hc]
        refine iff_of_false ?_ fun hfree => ?_
        · rintro ⟨hlines, hsame⟩
          rcases hrelay with ⟨-, hrelay⟩ | ⟨-, out, hrelay, -⟩
          · rw [hrelay] at hlines
            have hmem := hshort (rstripNewlines (decode line)) (by rw [hlines]; simp)
            rw [h.1] at hmem
            omega
          · rw [hrelay] at hsame
            simp only at hsame hle
            omega
        · obtain ⟨last, hmem, -⟩ := hfree [] line lines rfl heq
          exact absurd hmem List.not_mem_nil
      · have hp : AtCap cap line := hgt.le
        have hc : Long cfg line := by
          rw [Long, hover]
          exact hgt
        simp only [follow, if_pos hp, if_pos hc]
        rw [capFree_cons (by omega) fun hend => absurd hend.1 (by omega)]
        exact ih h.2 _

omit [Interpreter] in
theorem rstripNewlines_line {line : Str} (h : 10 ∉ line) :
    rstripNewlines line = line ∧ rstripNewlines (line ++ [10]) = line := by
  have hsame : rstripNewlines line = line := by
    rw [rstripNewlines, List.rdropWhile_eq_self_iff]
    exact fun hne hlast => h (beq_iff_eq.mp hlast ▸ List.getLast_mem hne)
  refine ⟨hsame, ?_⟩
  rw [rstripNewlines, List.rdropWhile_concat_pos _ _ _ (by decide)]
  exact hsame

omit [Interpreter] in
theorem plain_segments {output : Bytes} (hascii : Ascii output) : Plain (segments output) := by
  induction output using delimited_induction (d := newline) with
  | last line h =>
      rw [segments_last h]
      split
      next => exact fun l hmem => absurd hmem List.not_mem_nil
      next =>
        refine List.forall_mem_singleton.mpr ?_
        rw [decode_ascii hascii, (rstripNewlines_line (ten_not_mem h)).1, beforeNewline_last h,
          List.length_map]
  | line line text h ih =>
      rw [Ascii, List.forall_mem_append, List.forall_mem_cons] at hascii
      obtain ⟨hline, -, htext⟩ := hascii
      rw [segments_line h]
      refine List.forall_mem_cons.mpr ⟨?_, ih htext⟩
      rw [decode_line hline, (rstripNewlines_line (ten_not_mem h)).2, beforeNewline_line h, List.length_map]

/-- The pumps of both transports relay the same lines and count the same as
oversize. -/
def SameCaps (cap : Nat) (budget : Int) (sink : Bool) (output : Bytes) (chunks : List Bytes) :
    Prop :=
  let settings : Settings := ⟨cap, budget⟩
  let p := pumpUntilResult processTransport settings (pipeText output)
  let c := pumpUntilResult (containerTransport ⟨cap, sink⟩) settings ({ sock := chunks }, 0)
  p.2 = c.2 ∧ p.1.2.oversizeLines = c.1.2.oversizeLines

/-- The two transports enforce the same cap exactly when no line that the pump
reaches has as many characters as the cap. -/
theorem same_caps_iff {cap : Nat} (hcap : 1 ≤ cap) (budget : Int) (sink : Bool) {output : Bytes}
    (hascii : Ascii output) (hreturn : 13 ∉ output) {frames : List Frame}
    (hkind : ∀ f ∈ frames, f.kind = 1) (hfit : ∀ f ∈ frames, f.size ≤ cap)
    (houtput : frames.flatMap Frame.payload = output) {chunks : List Bytes}
    (hcut : Splits chunks (encodeAll frames)) :
    SameCaps cap budget sink output chunks ↔ CapFree cap (segments output) := by
  have hover : ∀ n, (⟨cap, sink⟩ : Config).Over n ↔ cap < n := by
    intro n
    rw [Config.Over]
    exact ⟨fun h => Int.ofNat_lt.mp h.2, fun h => ⟨Int.ofNat_lt.mpr hcap, Int.ofNat_lt.mpr h⟩⟩
  have hfits : ∀ f ∈ frames, ¬ (⟨cap, sink⟩ : Config).Over f.size := by
    intro f hf
    rw [hover]
    exact Nat.not_lt.mpr (hfit f hf)
  have hframed := framed_of_splits hfits hcut
  have hcome : toCome ⟨cap, sink⟩ { sock := chunks } frames = output := by
    rw [toCome, hcut.2, List.length_nil, Nat.zero_add, encodeAll_length_arrived,
      stdout_of_kind hkind, houtput]
  have hpipe : pipeText output = output.map UInt8.toNat := by
    rw [pipeText, decode_ascii hascii]
    refine universal_plain fun hmem => ?_
    obtain ⟨b, hb, hret⟩ := List.mem_map.mp hmem
    exact hreturn ((UInt8.toNat_inj.mp hret : b = 13) ▸ hb)
  have hprocess := process_follows hcap budget hascii {}
  have hcontainer := container_follows ⟨cap, budget⟩ {} hframed rfl
  rw [hcome, List.nil_append] at hcontainer
  have hagree := follow_agree_iff ⟨cap, budget⟩ hover (plain_segments hascii) {}
  simp only [← hprocess, ← hcontainer, ← hpipe] at hagree
  exact hagree

end

/-- The line `a` is shorter than the cap and the line `bcd`, in two frames, is
longer. -/
theorem same_caps_around :
    letI : Interpreter := asciiTables
    SameCaps 2 0 false [97, newline, 98, 99, 100, newline]
      [[1, 0, 0, 0, 0, 0, 0, 2, 97], [newline, 1, 0, 0, 0, 0, 0, 0, 2, 98, 99, 1, 0, 0, 0],
        [0, 0, 0, 2, 100, newline]] := by
  have hsame := @same_caps_iff asciiTables 2 (by decide) 0 false
    [97, newline, 98, 99, 100, newline] (by decide) (by decide)
    [⟨1, [97, newline], by decide⟩, ⟨1, [98, 99], by decide⟩, ⟨1, [100, newline], by decide⟩]
    (by decide) (by decide) rfl
    [[1, 0, 0, 0, 0, 0, 0, 2, 97], [newline, 1, 0, 0, 0, 0, 0, 0, 2, 98, 99, 1, 0, 0, 0],
      [0, 0, 0, 2, 100, newline]] ⟨by decide, rfl⟩
  have hlengths : ∀ line ∈ segments [97, newline, 98, 99, 100, newline],
      (beforeNewline line).length ≠ 2 := by decide
  refine hsame.mpr fun before line after hsplit hcap => ?_
  exact absurd hcap (hlengths line (by rw [hsplit]; simp))

/-- The process counts the line `ab` as oversize, the container relays it. -/
theorem not_same_caps :
    ¬ ∀ [Interpreter] (cap : Nat), 1 ≤ cap → ∀ (budget : Int) (sink : Bool) (output : Bytes),
      Ascii output → 13 ∉ output → ∀ frames : List Frame, (∀ f ∈ frames, f.kind = 1) →
        (∀ f ∈ frames, f.size ≤ cap) → frames.flatMap Frame.payload = output →
          ∀ chunks, Splits chunks (encodeAll frames) → SameCaps cap budget sink output chunks := by
  intro h
  let tables : Interpreter := asciiTables
  have hsame := h 2 (by decide) 0 false [97, 98, newline] (by decide) (by decide)
    [⟨1, [97, 98], by decide⟩, ⟨1, [newline], by decide⟩] (by decide) (by decide) rfl
    [[1, 0, 0, 0, 0, 0, 0, 2, 97, 98, 1, 0, 0, 0, 0, 0, 0, 1, newline]] ⟨by decide, rfl⟩
  exact absurd hsame.2 (by decide)

end AgentWeb.LineCaps
