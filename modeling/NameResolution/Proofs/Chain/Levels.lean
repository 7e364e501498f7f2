import NameResolution.Proofs.Hierarchy.GraphSearch
import NameResolution.Resolver

/-! What one level of a scope chain contributes. Every kind of scope has a list of
candidates for a query, searching it alone ends with the result that consists of these
candidates, and a chain is searched level by level up to the first one that has any. -/

namespace NameResolution

open LookupResult (ofCandidates)

variable {t : SymbolTable} {query : ScopeQuery}

/-! ### One level -/

/-- Imported types are candidates only if no alias hides them. -/
def ImportScope.candidates (t : SymbolTable) (query : ScopeQuery) (directives : ImportScope) :
    List SymbolId :=
  if directives.aliases.get query.name = [] ∧ query.options.namespaceAliasesOnly = false then
    directives.types t query.name
  else directives.aliases.get query.name

namespace Scope

/-- The candidates of a query in a scope while certain types are being searched. -/
def candidates (t : SymbolTable) (query : ScopeQuery) (stack : BaseStack) : Scope → List SymbolId
  | ofNamespace container => t.membersNamed container query.name
  | ofImports directives => directives.candidates t query
  | ofType ty => t.hierarchyCandidates query.name ty stack
  | ofTypeParameters p => p.parameters.get query.name
  | ofLocals l => (l.table query.options).get query.name

/-- The diagnostics that searching a scope for a query reports. -/
def findings (t : SymbolTable) (query : ScopeQuery) (stack : BaseStack) : Scope → List UseSiteDiagnostic
  | ofType ty => t.visitedFindings query.name [ty] stack
  | scope => (scope.candidates t query stack).flatMap t.findingsOf

end Scope

theorem ImportScope.search_eq (t : SymbolTable) (query : ScopeQuery) (directives : ImportScope) (s : Search) :
    (directives.search ⟨t, false⟩ query s.afresh).done =
      s.ended t query (directives.candidates t query)
        ((directives.candidates t query).flatMap t.findingsOf) := by
  have haliased := Search.considerAll_eq ⟨t, false⟩ query s.afresh [] rfl (directives.aliases.get query.name)
  unfold ImportScope.search ImportScope.candidates
  rw [haliased, List.nil_append]
  by_cases hnone : directives.aliases.get query.name = []
  · have hclear : (ofCandidates t query (directives.aliases.get query.name)).isClear = true :=
      LookupResult.isClear_ofCandidates_iff.2 hnone
    cases hoption : query.options.namespaceAliasesOnly with
    | true => simp [hclear, Search.ended, Search.afresh]
    | false =>
      have htypes := Search.considerAll_eq ⟨t, false⟩ query s.afresh [] rfl (directives.types t query.name)
      simp only [hnone, List.flatMap_nil, OrderedSet.insertAll_nil] at hclear ⊢
      simp only [hclear, Bool.not_false, Bool.and_self, if_true, and_self]
      change (s.afresh.considerAll _ _ _).done = _
      rw [htypes]
      rfl
  · have hclear : ¬ (ofCandidates t query (directives.aliases.get query.name)).isClear = true :=
      fun hc => hnone (LookupResult.isClear_ofCandidates_iff.1 hc)
    simp only [Bool.not_eq_true] at hclear
    simp [hclear, hnone, Search.ended, Search.afresh]

/-- A scope that is searched with nothing found yet ends with its own candidates. -/
theorem Scope.search_eq (t : SymbolTable) (query : ScopeQuery) (scope : Scope) (s : Search) :
    scope.search ⟨t, false⟩ query s.afresh =
      s.ended t query (scope.candidates t query s.stack) (scope.findings t query s.stack) := by
  have hconsider := fun cs => Search.considerAll_eq ⟨t, false⟩ query s.afresh [] rfl cs
  have hclear : s.afresh.result.isClear = true := rfl
  unfold Scope.search
  rw [if_pos hclear]
  cases scope with
  | ofNamespace container => exact congrArg Search.done (hconsider _)
  | ofImports directives => exact ImportScope.search_eq t query directives s
  | ofType ty =>
    have hresult := t.ofCandidates_visitedCandidates query ty s.stack
    simp only [searchHierarchy_eq, Search.ended, Scope.candidates, Scope.findings, hresult]
  | ofTypeParameters p => exact congrArg Search.done (hconsider _)
  | ofLocals l => exact congrArg Search.done (hconsider _)

/-! ### The whole chain -/

/-- What a scope comes to if it is searched by itself, with nothing found, no type being
searched and an empty sink. -/
def Scope.alone (t : SymbolTable) (query : ScopeQuery) (scope : Scope) : Searched :=
  scope.search ⟨t, false⟩ query {}

theorem Scope.alone_eq (t : SymbolTable) (query : ScopeQuery) (scope : Scope) :
    scope.alone t query =
      ({} : Search).ended t query (scope.candidates t query ∅) (scope.findings t query ∅) :=
  scope.search_eq t query {}

/-- The scope admits the options and finds something by itself. -/
def Scope.decides (t : SymbolTable) (query : ScopeQuery) (scope : Scope) : Bool :=
  scope.admits query.options && !(scope.alone t query).result.isClear

theorem Scope.decides_iff {scope : Scope} : scope.decides t query = true ↔
    scope.admits query.options = true ∧ scope.candidates t query ∅ ≠ [] := by
  have hclear : (scope.alone t query).result.isClear = true ↔ scope.candidates t query ∅ = [] := by
    rw [alone_eq]
    exact LookupResult.isClear_ofCandidates_iff
  rw [decides, Bool.and_eq_true, Bool.not_eq_true', ← Bool.not_eq_true, hclear]

theorem Scope.decides_eq_false_iff {scope : Scope} : scope.decides t query = false ↔
    scope.admits query.options = false ∨ scope.candidates t query ∅ = [] := by
  rw [← Bool.not_eq_true, decides_iff, not_and_or, Bool.not_eq_true, not_not]

namespace ScopeChain

/-- The scopes that a lookup searches: those that admit the options, as far as the first
one that decides. -/
def searched (t : SymbolTable) (query : ScopeQuery) (chain : ScopeChain) : ScopeChain :=
  (chain.takeWhile (fun x => !x.decides t query) ++ (chain.find? fun x => x.decides t query).toList).filter
    fun x => x.admits query.options

/-- The candidates of the first scope that decides. -/
def candidates (t : SymbolTable) (query : ScopeQuery) (chain : ScopeChain) : List SymbolId :=
  (chain.find? fun x => x.decides t query).elim [] fun x => x.candidates t query ∅

theorem searched_cons_of_decides {scope : Scope} (h : scope.decides t query = true) (outer : ScopeChain) :
    searched t query (scope :: outer) = [scope] := by
  have hadmits := (Scope.decides_iff.1 h).1
  simp [searched, h, hadmits]

theorem searched_cons_of_not_decides {scope : Scope} (h : scope.decides t query = false)
    (outer : ScopeChain) : searched t query (scope :: outer) =
      if scope.admits query.options then scope :: searched t query outer else searched t query outer := by
  rw [searched, List.takeWhile_cons_of_pos (by simp [h]), List.find?_cons_of_neg (by simp [h]),
    List.cons_append, List.filter_cons]
  rfl

theorem candidates_cons_of_decides {scope : Scope} (h : scope.decides t query = true) (outer : ScopeChain) :
    candidates t query (scope :: outer) = scope.candidates t query ∅ := by
  rw [candidates, List.find?_cons_of_pos h]
  rfl

theorem candidates_cons_of_not_decides {scope : Scope} (h : scope.decides t query = false)
    (outer : ScopeChain) : candidates t query (scope :: outer) = candidates t query outer := by
  rw [candidates, List.find?_cons_of_neg (by simp [h])]
  rfl

theorem candidates_singleton {scope : Scope} (hadmits : scope.admits query.options = true) :
    candidates t query [scope] = scope.candidates t query ∅ := by
  by_cases hnone : scope.candidates t query ∅ = []
  · rw [candidates_cons_of_not_decides (Scope.decides_eq_false_iff.2 (Or.inr hnone)), hnone]
    rfl
  · exact candidates_cons_of_decides (Scope.decides_iff.2 ⟨hadmits, hnone⟩) []

/-- There are candidates exactly if some scope decides. -/
theorem candidates_ne_nil_iff {chain : ScopeChain} :
    chain.candidates t query ≠ [] ↔ ∃ x ∈ chain, x.decides t query = true := by
  rw [candidates]
  cases hfirst : chain.find? fun x => x.decides t query with
  | none =>
    rw [List.find?_eq_none] at hfirst
    simpa using hfirst
  | some scope =>
    have hdecides := List.find?_some hfirst
    have hmem := List.mem_of_find?_eq_some hfirst
    exact ⟨fun _ => ⟨scope, hmem, hdecides⟩, fun _ => (Scope.decides_iff.1 hdecides).2⟩

theorem mem_of_mem_searched {chain : ScopeChain} {x : Scope} (hx : x ∈ chain.searched t query) : x ∈ chain := by
  rw [searched, List.mem_filter, List.mem_append, Option.mem_toList] at hx
  rcases hx.1 with hbefore | hfirst
  · exact List.takeWhile_subset _ hbefore
  · exact List.mem_of_find?_eq_some hfirst

/-- Whatever the scopes that are searched have as candidates is a candidate of the chain. -/
theorem mem_candidates_iff {chain : ScopeChain} {s : SymbolId} :
    s ∈ chain.candidates t query ↔ ∃ x ∈ chain.searched t query, s ∈ x.candidates t query ∅ := by
  induction chain with
  | nil => simp [candidates, searched]
  | cons scope outer ih =>
    cases hdecides : scope.decides t query with
    | true =>
      rw [candidates_cons_of_decides hdecides, searched_cons_of_decides hdecides]
      simp
    | false =>
      rw [candidates_cons_of_not_decides hdecides, searched_cons_of_not_decides hdecides, ih]
      rcases Scope.decides_eq_false_iff.1 hdecides with hrefuses | hnone
      · rw [hrefuses, if_neg Bool.false_ne_true]
      · split
        · simp [hnone]
        · rfl

end ScopeChain

/-! ### Who asks

Which candidates there are is a matter of the name and the options alone. -/

section

variable {query' : ScopeQuery} (hname : query.name = query'.name) (hoptions : query.options = query'.options)
include hname hoptions

theorem Scope.candidates_congr (scope : Scope) (stack : BaseStack) :
    scope.candidates t query stack = scope.candidates t query' stack := by
  unfold candidates ImportScope.candidates
  rw [hname, hoptions]

theorem Scope.findings_congr (scope : Scope) (stack : BaseStack) :
    scope.findings t query stack = scope.findings t query' stack := by
  have hcandidates : scope.candidates t query stack = scope.candidates t query' stack :=
    scope.candidates_congr hname hoptions stack
  cases scope with
  | ofType ty => simp only [findings, hname]
  | ofNamespace | ofImports | ofTypeParameters | ofLocals => simp only [findings, hcandidates]

theorem Scope.decides_congr (scope : Scope) : scope.decides t query = scope.decides t query' := by
  rw [Bool.eq_iff_iff, decides_iff, decides_iff, hoptions, scope.candidates_congr hname hoptions]

theorem ScopeChain.candidates_congr (chain : ScopeChain) :
    chain.candidates t query = chain.candidates t query' := by
  have hdecides : ∀ x : Scope, x.decides t query = x.decides t query' := Scope.decides_congr hname hoptions
  have hcandidates : ∀ x : Scope, x.candidates t query ∅ = x.candidates t query' ∅ :=
    fun x => x.candidates_congr hname hoptions ∅
  simp only [candidates, hdecides, hcandidates]

theorem ScopeChain.searched_congr (chain : ScopeChain) : chain.searched t query = chain.searched t query' := by
  have hdecides : ∀ x : Scope, x.decides t query = x.decides t query' := Scope.decides_congr hname hoptions
  simp only [searched, hdecides, hoptions]

end

/-! ### Searching the chain -/

/-- A search of a chain leaves no trace of the levels without candidates but their
diagnostics. -/
theorem searchChain_eq (t : SymbolTable) (query : ScopeQuery) (chain : ScopeChain) (s : Search)
    (hs : s.stack = ∅) : searchChain ⟨t, false⟩ query chain s.afresh =
      s.ended t query (chain.candidates t query)
        ((chain.searched t query).flatMap fun x => x.findings t query ∅) := by
  induction chain generalizing s with
  | nil => rfl
  | cons scope outer ih =>
    have hsearch := scope.search_eq t query s
    rw [hs] at hsearch
    simp only [searchChain, Bool.false_eq_true, if_false]
    cases hadmits : scope.admits query.options with
    | false =>
      have hdecides : scope.decides t query = false := by rw [Scope.decides, hadmits, Bool.false_and]
      rw [if_neg Bool.false_ne_true, ih s hs, ScopeChain.candidates_cons_of_not_decides hdecides,
        ScopeChain.searched_cons_of_not_decides hdecides, hadmits, if_neg Bool.false_ne_true]
    | true =>
      rw [if_pos rfl, hsearch]
      by_cases hnone : scope.candidates t query ∅ = []
      · have hdecides : scope.decides t query = false := Scope.decides_eq_false_iff.2 (Or.inr hnone)
        have hnext := ih { stack := s.stack, sink := s.sink.insertAll (scope.findings t query ∅) } hs
        have hgoes : ((s.ended t query [] (scope.findings t query ∅)).interruption.isNone &&
            (s.ended t query [] (scope.findings t query ∅)).result.isClear) = true := rfl
        rw [hnone, ScopeChain.candidates_cons_of_not_decides hdecides,
          ScopeChain.searched_cons_of_not_decides hdecides, hadmits, if_pos hgoes, if_pos rfl, List.flatMap_cons]
        refine Eq.trans hnext ?_
        simp only [Search.ended, OrderedSet.insertAll_append]
      · have hdecides : scope.decides t query = true := Scope.decides_iff.2 ⟨hadmits, hnone⟩
        have hclear : ¬ (ofCandidates t query (scope.candidates t query ∅)).isClear = true :=
          fun hc => hnone (LookupResult.isClear_ofCandidates_iff.1 hc)
        rw [if_neg (by simp [Search.ended, Search.done, hclear]),
          ScopeChain.candidates_cons_of_decides hdecides, ScopeChain.searched_cons_of_decides hdecides,
          List.flatMap_cons, List.flatMap_nil, List.append_nil]

/-- A text that was never interned is not looked for. -/
theorem Resolver.lookup_of_find?_eq_none {r : Resolver} {request : LookupRequest}
    (hvalid : request.options.isValid = true) (hname : r.names.find? request.name = none)
    (chain : ScopeChain) (sink : Diagnostics) : r.lookup chain request false sink = (.ok .empty, sink) := by
  rw [lookup, hvalid, hname]
  rfl

/-- A lookup of an interned name that is not called off. -/
theorem Resolver.lookup_eq {r : Resolver} {request : LookupRequest} {name : NameId}
    (hvalid : request.options.isValid = true) (hname : r.names.find? request.name = some name)
    (chain : ScopeChain) (sink : Diagnostics) :
    r.lookup chain request false sink =
      (.ok (ofCandidates r.table (request.query name) (chain.candidates r.table (request.query name))),
        sink.insertAll ((chain.searched r.table (request.query name)).flatMap fun x =>
          x.findings r.table (request.query name) ∅)) := by
  have h : searchChain ⟨r.table, false⟩ (request.query name) chain { sink } = _ :=
    searchChain_eq r.table (request.query name) chain { sink } rfl
  unfold Resolver.lookup
  rw [hvalid, hname]
  simp only [Bool.not_true, Bool.false_eq_true, if_false, h]
  rfl

end NameResolution
