import AgentWeb.Finish
import Mathlib.Algebra.Order.BigOperators.Group.List

namespace AgentWeb.Ledger

open Attempt PyText PyJson Protocol LineSafety Transcript Finish

/-- A row of `usage_events`. -/
structure UsageRow where
  userId : Str
  conversationId : Str
  runId : Str
  event : UsageEvent

def tokens (row : UsageRow) : Int := row.event.inputTokens + row.event.outputTokens

structure User where
  id : Str
  planPoints : Int
  packPoints : Int

structure Settings where
  budgetFreeTokens : Int
  budgetTokensPerPoint : Int

/-- `consumed_tokens`: two sums of the database. -/
def consumedTokens (books : List UsageRow) (user : User) : Int :=
  let rows := books.filter (·.userId = user.id)
  (rows.map (·.event.inputTokens)).sum + (rows.map (·.event.outputTokens)).sum

def tokenBudget (settings : Settings) (user : User) : Int :=
  settings.budgetFreeTokens + (user.planPoints + user.packPoints) * settings.budgetTokensPerPoint

structure BudgetStatus where
  consumed : Int
  budget : Int

def BudgetStatus.remaining (status : BudgetStatus) : Int := max 0 (status.budget - status.consumed)

def budgetStatus (settings : Settings) (books : List UsageRow) (user : User) : BudgetStatus :=
  ⟨consumedTokens books user, tokenBudget settings user⟩

/-- A run at the end of its worker: whom it is attributed to, what its sandbox
gave, what the worker finds, and whether the database takes the commit. -/
structure FinishedRun where
  userId : Str
  conversationId : Str
  runId : Str
  exec : Exec
  elapsedMs : Int
  store : Store
  committed : Bool

section Interpreter

variable [Interpreter]

def usageRows (limits : Limits) (r : FinishedRun) : List UsageRow :=
  (worker limits r.elapsedMs { r.store with ledger := [] } r.exec).1.ledger.map
    (⟨r.userId, r.conversationId, r.runId, ·⟩)

def record (limits : Limits) (books : List UsageRow) (r : FinishedRun) : List UsageRow :=
  if r.committed then books ++ usageRows limits r else books

end Interpreter

end AgentWeb.Ledger
