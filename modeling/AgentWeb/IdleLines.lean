import AgentWeb.Agreement
import AgentWeb.Transcript

namespace AgentWeb.IdleLines

open Attempt Agreement PyText PyJson JsonLoads Protocol LineSafety Transcript

variable [Interpreter]

structure Verdict where
  answer : Str
  errors : List Str
  codes : List Str
  usage : Option Dict
  model : Json
  cancelled : Bool

def verdictOf (o : RunOutcome) : Verdict :=
  ⟨o.answer, o.errors, o.codes, o.usage, o.model, o.cancelled⟩

def Idle (e : ProtocolEvent) : Prop :=
  match e.type with
  | .result => False
  | .error => refusalCode e.data = []
  | .notify =>
      (fetch e.data "kind" = .str "error" → fetch e.data "data" = .null ∨
        errorText (fetch e.data "data") = [] ∧ errorCode (fetch e.data "data") = []) ∧
      (fetch e.data "kind" = .str "usage" → FiniteUsage e.data)
  | _ => True

def IdleText (text : Str) : Prop := ∃ e, parseText text = .ok e ∧ Idle e

omit [Interpreter] in
theorem appendNonempty_nil (xs : List Str) : appendNonempty xs [] = xs := by
  simp [appendNonempty]

theorem verdict_idle {e : ProtocolEvent} (he : Idle e) (o : RunOutcome) :
    ∃ o', applyEvent o e = .ok o' ∧ verdictOf o' = verdictOf o := by
  simp only [Idle] at he
  split at he
  next => exact he.elim
  next ht =>
    refine ⟨applyRefusal o e.data, by simp only [applyEvent, ht], ?_⟩
    simp [verdictOf, applyRefusal, he, appendNonempty_nil]
  next ht =>
    simp only [applyEvent, ht]
    split
    next herr =>
      refine ⟨_, rfl, ?_⟩
      rcases he.1 (isStr_iff.mp herr) with hnull | ⟨htext, hcode⟩
      · simp [applyNotifyError, hnull]
      · rw [applyNotifyError]
        split
        next => rfl
        next v hv => simp [verdictOf, htext, hcode, appendNonempty_nil]
    next =>
      split
      next husage =>
        obtain ⟨o', ho'⟩ := (applyNotifyUsage_ok_iff o e.data).mpr (he.2 (isStr_iff.mp husage))
        refine ⟨o', ho', ?_⟩
        rw [applyNotifyUsage] at ho'
        split at ho'
        next usage _ =>
          obtain ⟨live, -, rfl⟩ := map_eq_ok.mp ho'
          rfl
        next =>
          cases ho'
          rfl
      next => exact ⟨o, rfl, rfl⟩
  next h1 h2 h3 =>
    refine ⟨o, ?_, rfl⟩
    rw [applyEvent]
    split
    next ht => exact absurd ht h1
    next ht => exact absurd ht h3
    next ht => exact absurd ht h2
    next => rfl

theorem applyNotifyUsage_verdict {o o' : RunOutcome} (h : verdictOf o = verdictOf o') (data : Dict) :
    (applyNotifyUsage o data).map verdictOf = (applyNotifyUsage o' data).map verdictOf := by
  simp only [applyNotifyUsage]
  split
  next usage _ =>
    cases liveUsageOf usage with
    | error x => rfl
    | ok live => simpa [verdictOf] using h
  next => simpa using h

theorem applyEvent_verdict {o o' : RunOutcome} (h : verdictOf o = verdictOf o')
    (e : ProtocolEvent) : (applyEvent o e).map verdictOf = (applyEvent o' e).map verdictOf := by
  have hv := h
  simp only [verdictOf, Verdict.mk.injEq] at hv
  obtain ⟨hanswer, herrors, hcodes, husage, hmodel, hcancelled⟩ := hv
  simp only [applyEvent]
  split
  next => simp [verdictOf, applyResult, herrors, hcodes]
  next =>
    split
    next =>
      simp only [applyNotifyError]
      split <;> simp [verdictOf, hanswer, herrors, hcodes, husage, hmodel, hcancelled]
    next =>
      split
      next => exact applyNotifyUsage_verdict h e.data
      next => simpa using h
  next =>
    simp [verdictOf, applyRefusal, hanswer, herrors, hcodes, husage, hmodel, hcancelled]
  next => simpa using h

theorem foldEvents_verdict {ds es : List ProtocolEvent} (h : Agree Idle ds es) (o : RunOutcome) :
    (foldEvents o ds).map verdictOf = (foldEvents o es).map verdictOf :=
  h.foldlM (fun _ he o => verdict_idle he o) (fun _ _ e ho => applyEvent_verdict ho e) rfl

def textsOf (retained : List Str) : List Str := retained.flatMap fun l => nonblankLines (l ++ [10])

theorem applyEvent_raises {e : ProtocolEvent} (o o' : RunOutcome) :
    (applyEvent o e).map (fun _ => ()) = (applyEvent o' e).map fun _ => () := by
  simp only [applyEvent]
  split
  next => rfl
  next =>
    split
    next => rfl
    next =>
      split
      next =>
        simp only [applyNotifyUsage]
        split
        next usage _ => cases liveUsageOf usage <;> rfl
        next => rfl
      next => rfl
  next => rfl
  next => rfl

/-- The verdict on the captured texts: they are read first, and then folded. -/
def verdictOn (o : RunOutcome) (texts : List Str) : Except Exc Verdict :=
  (texts.mapM parseText).bind fun events => (foldEvents o events).map verdictOf

def Reads (text : Str) : Prop := ∃ e, parseText text = .ok e

def Folds (text : Str) : Prop := ∃ e, parseText text = .ok e ∧ FoldSafe e

/-- Two captures that differ in idle texts only, or have a text that raises,
where what they differ in raises nothing before it. -/
inductive Undisturbed : List Str → List Str → Prop
  | idle {ts ts' : List Str} (h : Agree IdleText ts ts') : Undisturbed ts ts'
  | unread {t : Str} {x : Exc} {ts ts' us us' : List Str} (ht : parseText t = .error x)
      (h : Agree Reads ts ts') : Undisturbed (ts ++ t :: us) (ts' ++ t :: us')
  | unfolded {t : Str} {e : ProtocolEvent} {ts ts' us us' : List Str} (ht : parseText t = .ok e)
      (he : ¬ FoldSafe e) (h : Agree Folds ts ts') (hu : Agree Reads us us') :
      Undisturbed (ts ++ t :: us) (ts' ++ t :: us')

theorem foldEvents_unfolded {ds es us us' : List ProtocolEvent} {e : ProtocolEvent}
    (h : Agree FoldSafe ds es) (he : ¬ FoldSafe e) (o : RunOutcome) :
    (foldEvents o (ds ++ e :: us)).map verdictOf = (foldEvents o (es ++ e :: us')).map verdictOf := by
  have hraise (s : RunOutcome) : ∃ x, applyEvent s e = .error x := by
    cases hs : applyEvent s e with
    | error x => exact ⟨x, rfl⟩
    | ok s' => exact absurd ((applyEvent_ok_iff s e).mp ⟨s', hs⟩) he
  have hpre : (ds.foldlM applyEvent o).map (fun _ => ()) = (es.foldlM applyEvent o).map fun _ => () :=
    h.foldlM (fun a ha s => ((applyEvent_ok_iff s a).mpr ha).imp fun _ hs => ⟨hs, rfl⟩)
      (fun s s' a _ => applyEvent_raises s s') rfl
  simp only [foldEvents, List.foldlM_append]
  cases hd : ds.foldlM applyEvent o with
  | error x =>
      cases hs : es.foldlM applyEvent o with
      | error y =>
          rw [hd, hs] at hpre
          cases hpre
          rfl
      | ok s => simp [hd, hs] at hpre
  | ok s =>
      cases hs : es.foldlM applyEvent o with
      | error y => simp [hd, hs] at hpre
      | ok s' =>
          obtain ⟨x, hx⟩ := hraise s
          obtain ⟨y, hy⟩ := hraise s'
          have hxy := applyEvent_raises (e := e) s s'
          rw [hx, hy] at hxy
          cases hxy
          simp [hx, hy]

theorem verdictOn_undisturbed {ts ts' : List Str} (h : Undisturbed ts ts') (o : RunOutcome) :
    verdictOn o ts = verdictOn o ts' := by
  simp only [verdictOn]
  cases h with
  | idle h =>
      rcases h.mapM fun _ h => h with ⟨ds, es, hd, he, h⟩ | ⟨x, hd, he⟩
      · rw [hd, he]
        exact foldEvents_verdict h o
      · rw [hd, he]
  | unread ht h =>
      rcases h.mapM (fun _ h => h.imp fun _ he => ⟨he, trivial⟩) with ⟨ds, es, hd, he, -⟩ | ⟨x, hd, he⟩
      · simp [List.mapM_append, hd, he, ht, Except.bind]
      · simp [List.mapM_append, hd, he, Except.bind]
  | unfolded ht hraise h hu =>
      rcases h.mapM fun _ h => h with ⟨ds, es, hd, he, h⟩ | ⟨x, hd, he⟩
      · rcases hu.mapM (fun _ h => h.imp fun _ he => ⟨he, trivial⟩) with
          ⟨us, us', hus, hus', -⟩ | ⟨x, hus, hus'⟩
        · simpa [List.mapM_append, hd, he, ht, hus, hus', Except.bind] using
            foldEvents_unfolded h hraise o
        · simp [List.mapM_append, hd, he, ht, hus, hus', Except.bind]
      · simp [List.mapM_append, hd, he, Except.bind]

end AgentWeb.IdleLines
