import NameResolution.Proofs.Hierarchy.Outcome
import NameResolution.Proofs.Tables.Members

/-! The search of a type and its base types finds what a plain graph search finds. It may
enter a shared base type once for every path that leads there, yet its result is that of
the depth-first walk that visits each type at most once. -/

namespace NameResolution

open LookupResult (ofCandidates)

namespace SymbolTable

/-- The types that a depth-first walk visits from a type while other types are being
searched, where a type that declares the name hides its base types. -/
def searchOrder (t : SymbolTable) (name : NameId) (ty : SymbolId) (stack : BaseStack) : List SymbolId :=
  t.walkBases (t.isTransparent name) [ty] stack.toList

/-- The members by a name of the types in the order of the search. -/
def hierarchyCandidates (t : SymbolTable) (name : NameId) (ty : SymbolId) (stack : BaseStack) :
    List SymbolId :=
  (t.searchOrder name ty stack).flatMap fun x => t.membersNamed x name

/-- The walk enters what it reaches through types that declare nothing by the name. -/
theorem mem_searchOrder_iff {t : SymbolTable} {name : NameId} {ty x : SymbolId} {stack : BaseStack}
    (hnew : ty ∉ stack) : x ∈ t.searchOrder name ty stack ↔ Relation.ReflTransGen
      (fun a b => t.membersNamed a name = [] ∧ b ∈ t.bases a ∧ b ∉ stack) ty x := by
  have hstep : t.StepsTo (t.isTransparent name) stack.toList =
      fun a b => t.membersNamed a name = [] ∧ b ∈ t.bases a ∧ b ∉ stack := by
    funext a b
    by_cases ha : t.membersNamed a name = []
    · simp [StepsTo, followed_of_declares_nothing ha, ha, OrderedSet.mem_def]
    · simp [StepsTo, followed_of_declares ha, ha]
  rw [searchOrder, mem_walkBases_iff, hstep]
  constructor
  · rintro ⟨p, hp, -, hpath⟩
    rwa [List.mem_singleton.1 hp] at hpath
  · exact fun hpath => ⟨ty, List.mem_cons_self, hnew, hpath⟩

theorem hierarchyCandidates_eq_nil_iff {t : SymbolTable} {name : NameId} {ty : SymbolId}
    {stack : BaseStack} : t.hierarchyCandidates name ty stack = [] ↔
      ∀ x ∈ t.searchOrder name ty stack, t.membersNamed x name = [] := by
  rw [hierarchyCandidates, List.flatMap_eq_nil_iff]

/-- A search that starts afresh finds the members of the first type on each path of base types
that declares the name. -/
theorem mem_hierarchyCandidates_iff {t : SymbolTable} {name : NameId} {ty s : SymbolId} :
    s ∈ t.hierarchyCandidates name ty ∅ ↔ ∃ owner, Relation.ReflTransGen
      (fun a b => t.membersNamed a name = [] ∧ b ∈ t.bases a) ty owner ∧ s ∈ t.membersNamed owner name := by
  have hempty : ∀ x : SymbolId, x ∉ (∅ : BaseStack) := fun x => List.not_mem_nil
  simp only [hierarchyCandidates, List.mem_flatMap, mem_searchOrder_iff (hempty ty), hempty, not_false_eq_true,
    and_true]

theorem visitedCandidates_eq (t : SymbolTable) (name : NameId) (pending : List SymbolId)
    (stack : BaseStack) : t.visitedCandidates name pending stack =
      (t.enteredTypes (t.isTransparent name) pending stack.toList).flatMap fun x => t.membersNamed x name := by
  rw [visitedCandidates, enteredTypes, visits]
  generalize t.explore (t.isTransparent name) pending stack.toList = visits
  induction visits with
  | nil => rfl
  | cons visit visits ih =>
    cases visit with
    | entered ty => rw [List.flatMap_cons, ih]; rfl
    | cycle ty => rw [List.flatMap_cons, ih]; rfl

/-- Repeated visits add nothing to a result. -/
theorem ofCandidates_visitedCandidates (t : SymbolTable) (query : ScopeQuery) (ty : SymbolId)
    (stack : BaseStack) : ofCandidates t query (t.visitedCandidates query.name [ty] stack) =
      ofCandidates t query (t.hierarchyCandidates query.name ty stack) := by
  rw [visitedCandidates_eq, ← LookupResult.ofCandidates_flatMap_newByKey, newByKey_nil_enteredTypes]
  rfl

end SymbolTable

/-- The result of a search that starts with nothing found, for any base types. -/
theorem result_searchHierarchy (t : SymbolTable) (query : ScopeQuery) (ty : SymbolId) (s : Search) :
    (searchHierarchy ⟨t, false⟩ query ty s.afresh).result =
      ofCandidates t query (t.hierarchyCandidates query.name ty s.stack) := by
  rw [searchHierarchy_eq]
  exact t.ofCandidates_visitedCandidates query ty s.stack

/-- A search of the base types of a built table, diamonds and cycles included, finds the
members by the name of the types that a walk visits. Each type is visited once, none of
those that are being searched is entered, and a type that declares the name is not left. -/
theorem searchHierarchy_agrees_with_walk (names : Interner) (steps : List Declaration) (query : ScopeQuery)
    (ty : SymbolId) (stack : BaseStack) (sink : Diagnostics) (hnew : ty ∉ stack) :
    let t := ((Builder.start names).declareAll steps).table
    let visited := t.walkBases (fun x => (t.membersNamed x query.name).isEmpty) [ty] stack.toList
    let found := searchHierarchy ⟨t, false⟩ query ty { stack, sink }
    visited.Nodup ∧
      (∀ x, x ∈ visited ↔ Relation.ReflTransGen
        (fun a b => t.membersNamed a query.name = [] ∧ b ∈ t.bases a ∧ b ∉ stack) ty x) ∧
      found.interruption = none ∧
      found.result.Partitions t query (visited.flatMap fun x => t.membersNamed x query.name) ∧
      (found.result.isClear = true ↔ ∀ x ∈ visited, t.membersNamed x query.name = []) := by
  intro t visited found
  have hresult : found.result = ofCandidates t query (t.hierarchyCandidates query.name ty stack) :=
    result_searchHierarchy t query ty { stack, sink }
  have hended : found.interruption = none := by
    have h := searchHierarchy_eq t query ty { stack, sink }
    exact congrArg Searched.interruption h
  have hnodup : visited.Nodup := t.nodup_walkBases _ _ _
  have howned : t.MembersOwned := SymbolTable.membersOwned_declareAll names steps
  have hpartition := @LookupResult.partitions_ofCandidates t query _ (howned.nodup_flatMap hnodup query.name)
  refine ⟨hnodup, fun x => SymbolTable.mem_searchOrder_iff hnew, hended, ?_, ?_⟩
  · rw [hresult]
    exact hpartition
  · rw [hresult, LookupResult.isClear_ofCandidates_iff]
    exact SymbolTable.hierarchyCandidates_eq_nil_iff

/-- Types 2 and 3 are bases of type 1, type 4 is a base of both and declares symbol 5, and
types 3 and 1 are bases of each other. -/
def diamondWithCycle : List Declaration :=
  let type (name : Nat) : Declaration :=
    .symbol { name := ⟨name⟩, kind := .typeDecl .classType, container := some ⟨0⟩ }
  [type 1, type 2, type 3, type 4, .symbol { name := ⟨5⟩, kind := .method, container := some ⟨4⟩ },
    .base ⟨1⟩ ⟨2⟩, .base ⟨1⟩ ⟨3⟩, .base ⟨2⟩ ⟨4⟩, .base ⟨3⟩ ⟨1⟩, .base ⟨3⟩ ⟨4⟩]

theorem searchHierarchy_agrees_with_walk_diamondWithCycle :
    let t := ((Builder.start .empty).declareAll diamondWithCycle).table
    let query : ScopeQuery := ⟨⟨5⟩, 0, .empty, {}, true⟩
    let visited := t.walkBases (fun x => (t.membersNamed x query.name).isEmpty) [⟨1⟩] []
    let found := searchHierarchy ⟨t, false⟩ query ⟨1⟩ {}
    (⟨1⟩ : SymbolId) ∉ (∅ : BaseStack) ∧ ⟨4⟩ ∈ visited ∧ found.result.symbols.Nodup ∧
      found.result.symbols = [⟨5⟩] ∧ found.sink.toList = [.inheritanceCycle ⟨1⟩] := by
  intro t query visited found
  have hnew : (⟨1⟩ : SymbolId) ∉ (∅ : BaseStack) := by decide
  obtain ⟨-, hreach, -, hparts, -⟩ :=
    searchHierarchy_agrees_with_walk .empty diamondWithCycle query ⟨1⟩ ∅ ∅ hnew
  have hpath : Relation.ReflTransGen
      (fun a b => t.membersNamed a query.name = [] ∧ b ∈ t.bases a ∧ b ∉ (∅ : BaseStack)) ⟨1⟩ ⟨4⟩ :=
    .head (b := ⟨2⟩) (by decide +kernel) (.single (by decide +kernel))
  exact ⟨hnew, (hreach ⟨4⟩).2 hpath, hparts.symbols_nodup, by decide +kernel, by decide +kernel⟩

end NameResolution
