import NameResolution.Lookup.Access

/-! Whether a candidate found by name is usable: it needs the shape that the query asks
for and has to be accessible. The requirements have a fixed order, and the first one
that fails is the reason. -/

namespace NameResolution

inductive RejectionReason where
  | notInvocable
  | notALabel
  | notANamespaceAlias
  | notATypeOrNamespace
  | wrongInstanceContext
  | wrongArity (requested declared : Nat)
  | inaccessible
  deriving DecidableEq

def RejectionReason.message : RejectionReason → String
  | notInvocable => "is not invocable"
  | notALabel => "is not a label"
  | notANamespaceAlias => "is not a namespace alias"
  | notATypeOrNamespace => "is not a type or namespace"
  | wrongInstanceContext => "is used in the wrong instance context"
  | wrongArity requested declared => s!"declares {declared} type parameters but {requested} were given"
  | inaccessible => "is inaccessible due to its protection level"

inductive Viability where
  | viable
  | notViable (reason : RejectionReason)
  deriving DecidableEq

namespace ScopeQuery

/-- The kind of symbol that the options narrow the search to: labels before aliases,
aliases before namespaces and types. -/
def kindMismatch? (query : ScopeQuery) (s : SymbolData) : Option RejectionReason :=
  if query.options.labelsOnly then
    if s.isLabel then none else some .notALabel
  else if query.options.namespaceAliasesOnly then
    if s.isNamespaceAlias then none else some .notANamespaceAlias
  else if query.options.namespacesOrTypesOnly && !s.kind.isNamespaceOrType then
    some .notATypeOrNamespace
  else none

/-- The number of type arguments matters if some are given or an exact match is asked for. -/
def arityMatches (query : ScopeQuery) (s : SymbolData) : Bool :=
  if decide (0 < query.arity) || query.options.exactArity then s.arity == query.arity else true

def instanceMismatch (query : ScopeQuery) (s : SymbolData) : Bool :=
  (query.options.mustBeInstance && !s.isInstanceMember)
    || (query.options.mustNotBeInstance && s.isInstanceMember)

def check (query : ScopeQuery) (t : SymbolTable) (candidate : SymbolId) : Viability :=
  let s := t.data candidate
  if query.options.mustBeInvocableIfMember && s.kind.isMember && !s.isInvocable then
    .notViable .notInvocable
  else match query.kindMismatch? s with
  | some reason => .notViable reason
  | none =>
    if query.instanceMismatch s then .notViable .wrongInstanceContext
    else if !query.arityMatches s then .notViable (.wrongArity query.arity s.arity)
    else if !t.isAccessible candidate query.context then .notViable .inaccessible
    else .viable

/-- A candidate is viable if it meets the requirement of each option, of the arity and of access. -/
theorem check_eq_viable_iff {query : ScopeQuery} {t : SymbolTable} {s : SymbolId} : query.check t s = .viable ↔
    (query.options.mustBeInvocableIfMember && (t.data s).kind.isMember && !(t.data s).isInvocable) = false ∧
      query.kindMismatch? (t.data s) = none ∧ query.instanceMismatch (t.data s) = false ∧
      query.arityMatches (t.data s) = true ∧ t.isAccessible s query.context = true := by
  unfold check
  dsimp only
  split
  · next hinvocable => simp [hinvocable]
  · next hinvocable =>
    cases query.kindMismatch? (t.data s) with
    | some reason => simp
    | none =>
      cases query.instanceMismatch (t.data s) <;> cases query.arityMatches (t.data s) <;>
        cases t.isAccessible s query.context <;> simp [hinvocable]

end ScopeQuery

end NameResolution
