import NameResolution.Scope.BaseStack
import NameResolution.Lookup.Diagnostics

/-! The state of a search at one level of a scope chain, and the step that every scope
kind shares: checking candidates and recording their problems. -/

namespace NameResolution

/-- The table that is searched, and whether the search has been called off. -/
structure SearchEnv where
  table : SymbolTable
  cancelled : Bool := false

/-- What has been found, which types are being searched, and which problems came up. -/
structure Search where
  result : LookupResult := .empty
  stack : BaseStack := ∅
  sink : Diagnostics := ∅

/-- The state in which a search has ended, and the reason if that was before its time. -/
structure Searched extends Search where
  interruption : Option Interruption := none

namespace Search

def done (s : Search) : Searched := { s with }

def interrupted (s : Search) (reason : Interruption) : Searched :=
  { s with interruption := some reason }

/-- Records the problem of a candidate, then sorts it into the result. -/
def consider (env : SearchEnv) (query : ScopeQuery) (s : Search) (candidate : SymbolId) : Search :=
  { s with
    result := s.result.addCandidate env.table query.diagnose candidate (query.check env.table candidate)
    sink := Diagnostics.record s.sink env.table candidate }

def considerAll (env : SearchEnv) (query : ScopeQuery) (s : Search) (candidates : List SymbolId) :
    Search :=
  candidates.foldl (consider env query) s

/-- A search of another type with the same stack and sink and nothing found yet. -/
def afresh (s : Search) : Search := { s with result := .empty }

@[simp] theorem stack_considerAll (env : SearchEnv) (query : ScopeQuery) (s : Search)
    (candidates : List SymbolId) : (s.considerAll env query candidates).stack = s.stack := by
  induction candidates generalizing s with
  | nil => rfl
  | cons c cs ih => exact ih (s.consider env query c)

end Search

/-- Leaves a type, whatever way its search has ended. -/
def Searched.leave (s : Searched) (ty : SymbolId) : Searched :=
  match BaseStack.pop s.stack ty with
  | .ok stack => { s with stack }
  | .error rule => { s with interruption := some (.violation rule) }

/-- A type that was entered last can be left. -/
theorem Searched.leave_of_push? {s : Searched} {stack : BaseStack} {ty : SymbolId}
    (h : BaseStack.push? stack ty = some s.stack) : s.leave ty = { s with stack } := by
  simp [Searched.leave, BaseStack.pop_of_push? h]

end NameResolution
