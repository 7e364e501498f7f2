import NameResolution.Proofs.Chain.Levels

/-! Shadowing. The innermost scope that admits the options and has any candidate decides a
lookup, as if it had been searched alone. Scopes further out are never consulted, and those
further in leave nothing behind but diagnostics. -/

namespace NameResolution

variable {t : SymbolTable} {query : ScopeQuery}

/-! ### The deciding scope -/

namespace ScopeChain

theorem ofCandidates_candidates (t : SymbolTable) (query : ScopeQuery) (chain : ScopeChain) :
    LookupResult.ofCandidates t query (chain.candidates t query) =
      (chain.find? fun x => x.decides t query).elim .empty fun x => (x.alone t query).result := by
  rw [candidates]
  cases chain.find? fun x => x.decides t query with
  | none => rfl
  | some scope =>
    rw [Option.elim_some, Option.elim_some, Scope.alone_eq]
    rfl

/-- A sink grows by what the scopes report when each is searched alone. -/
theorem insertAll_flatMap_findings (chain : ScopeChain) (sink : Diagnostics) :
    sink.insertAll (chain.flatMap fun x => x.findings t query ∅) =
      chain.foldl (fun sink x => Diagnostics.extend sink (x.alone t query).sink) sink := by
  induction chain generalizing sink with
  | nil => rfl
  | cons scope outer ih =>
    have hscope : Diagnostics.extend sink (scope.alone t query).sink =
        sink.insertAll (scope.findings t query ∅) := by
      rw [Scope.alone_eq]
      exact OrderedSet.insertAll_toList_insertAll sink ∅ (scope.findings t query ∅)
    rw [List.flatMap_cons, OrderedSet.insertAll_append, ih, List.foldl_cons, hscope]

/-! ### Scopes further out and further in -/

theorem candidates_append_cons {scope : Scope} (h : scope.decides t query = true)
    (inner outer : ScopeChain) :
    candidates t query (inner ++ scope :: outer) = candidates t query (inner ++ [scope]) := by
  rw [candidates, candidates, List.find?_append, List.find?_append, List.find?_cons_of_pos h,
    List.find?_cons_of_pos h]

theorem searched_append_cons {scope : Scope} (h : scope.decides t query = true)
    (inner outer : ScopeChain) :
    searched t query (inner ++ scope :: outer) = searched t query (inner ++ [scope]) := by
  induction inner with
  | nil =>
    rw [List.nil_append, List.nil_append, searched_cons_of_decides h, searched_cons_of_decides h]
  | cons x inner ih =>
    rw [List.cons_append, List.cons_append]
    cases hx : x.decides t query with
    | true => rw [searched_cons_of_decides hx, searched_cons_of_decides hx]
    | false => rw [searched_cons_of_not_decides hx, searched_cons_of_not_decides hx, ih]

/-- Scopes that do not decide may stand anywhere in a chain. -/
theorem candidates_append_of_not_decides {added : ScopeChain}
    (h : ∀ x ∈ added, x.admits query.options = false ∨ x.candidates t query ∅ = [])
    (inner outer : ScopeChain) :
    candidates t query (inner ++ added ++ outer) = candidates t query (inner ++ outer) := by
  have hnone : added.find? (fun x => x.decides t query) = none := by
    rw [List.find?_eq_none]
    intro x hx
    rw [Scope.decides_eq_false_iff.2 (h x hx)]
    exact Bool.false_ne_true
  rw [candidates, candidates, List.append_assoc, List.find?_append, List.find?_append, List.find?_append,
    hnone, Option.none_or]

end ScopeChain

/-- A lookup gives what its deciding scope gives when it is searched alone. The sink gains
what the admitted scopes as far as that one report, whatever stands further out, and scopes
that refuse the options or have no candidate do not change the result. -/
theorem Resolver.lookup_decided_by_innermost (r : Resolver) (request : LookupRequest) (name : NameId)
    (hvalid : request.options.isValid = true) (hname : r.names.find? request.name = some name) :
    let query := request.query name
    (∀ (chain : ScopeChain) (sink : Diagnostics), r.lookup chain request false sink =
      (.ok ((chain.find? fun x => x.decides r.table query).elim .empty fun x =>
          (x.alone r.table query).result),
        (chain.searched r.table query).foldl
          (fun sink x => Diagnostics.extend sink (x.alone r.table query).sink) sink)) ∧
    (∀ (inner : ScopeChain) (scope : Scope) (outer outer' : ScopeChain) (sink : Diagnostics),
      scope.decides r.table query = true →
        r.lookup (inner ++ scope :: outer) request false sink =
          r.lookup (inner ++ scope :: outer') request false sink) ∧
    (∀ (inner added outer : ScopeChain) (sink : Diagnostics),
      (∀ x ∈ added, x.admits request.options = false ∨ x.candidates r.table query ∅ = []) →
        (r.lookup (inner ++ added ++ outer) request false sink).1 =
          (r.lookup (inner ++ outer) request false sink).1) := by
  intro query
  refine ⟨fun chain sink => ?_, fun inner scope outer outer' sink hdecides => ?_,
    fun inner added outer sink hadded => ?_⟩
  · rw [lookup_eq hvalid hname, ScopeChain.ofCandidates_candidates, ScopeChain.insertAll_flatMap_findings]
  · rw [lookup_eq hvalid hname, lookup_eq hvalid hname,
      ScopeChain.candidates_append_cons hdecides inner outer,
      ScopeChain.candidates_append_cons hdecides inner outer',
      ScopeChain.searched_append_cons hdecides inner outer,
      ScopeChain.searched_append_cons hdecides inner outer']
  · rw [lookup_eq hvalid hname, lookup_eq hvalid hname]
    exact congrArg (fun found => Except.ok (LookupResult.ofCandidates r.table query found))
      (ScopeChain.candidates_append_of_not_decides hadded inner outer)

/-- Type 1 has a private field 2, and symbol 3 is a local variable of the same name. -/
def privateFieldBeforeLocal : Resolver where
  names := ⟨.ofList ["", "x"]⟩
  table := ((Builder.start .empty).declareAll
    [.symbol { name := ⟨0⟩, kind := .typeDecl .classType, container := some ⟨0⟩ },
      .symbol { name := ⟨1⟩, kind := .field, accessibility := .privateAccess, container := some ⟨1⟩ },
      .symbol { name := ⟨1⟩, kind := .localVariable, container := some ⟨1⟩ }]).table

theorem lookup_decided_by_innermost_privateField :
    let r := privateFieldBeforeLocal
    let request : LookupRequest := { name := "x" }
    let block : Scope := .ofLocals { kind := .block, locals := (∅ : NameTable).insert ⟨1⟩ ⟨3⟩ }
    request.options.isValid = true ∧ r.names.find? request.name = some ⟨1⟩ ∧
      (Scope.ofType ⟨1⟩).decides r.table (request.query ⟨1⟩) = true ∧
      ((Scope.ofType ⟨1⟩).alone r.table (request.query ⟨1⟩)).result.kind = .notViable ∧
      r.lookup [.ofType ⟨1⟩, block] request false ∅ = r.lookup [.ofType ⟨1⟩] request false ∅ := by
  intro r request block
  have hvalid : request.options.isValid = true := by decide
  have hname : r.names.find? request.name = some ⟨1⟩ := Interner.find?_eq_some_iff.2 rfl
  have hdecides : (Scope.ofType ⟨1⟩).decides r.table (request.query ⟨1⟩) = true := by decide +kernel
  refine ⟨hvalid, hname, hdecides, by decide +kernel, ?_⟩
  exact (Resolver.lookup_decided_by_innermost r request ⟨1⟩ hvalid hname).2.1 [] (.ofType ⟨1⟩)
    [block] [] ∅ hdecides

end NameResolution
