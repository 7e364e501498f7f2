import NameResolution.Proofs.Chain.Levels

/-! Which problems a lookup reports. They are those of the symbols in its result, viable or
not: every candidate that is examined ends up in the result, since the scopes before the one
that decides have no candidates at all. -/

namespace NameResolution

variable {t : SymbolTable} {query : ScopeQuery}

/-! ### Problems of candidates -/

namespace SymbolTable

theorem problem_mem_findingsOf {s x : SymbolId} {p : UseSiteProblem} :
    .problem s p ∈ t.findingsOf x ↔ s = x ∧ (t.data s).problem = some p := by
  unfold findingsOf
  cases hx : (t.data x).problem with
  | none =>
    constructor
    · exact fun h => absurd h List.not_mem_nil
    · rintro ⟨rfl, hs⟩
      rw [hx] at hs
      cases hs
  | some q =>
    simp only [Option.map_some, Option.toList_some, List.mem_singleton, UseSiteDiagnostic.problem.injEq]
    constructor
    · rintro ⟨rfl, rfl⟩
      exact ⟨rfl, hx⟩
    · rintro ⟨rfl, hs⟩
      rw [hx] at hs
      exact ⟨rfl, (Option.some.inj hs).symm⟩

theorem problem_mem_flatMap_findingsOf {s : SymbolId} {p : UseSiteProblem} {candidates : List SymbolId} :
    .problem s p ∈ candidates.flatMap t.findingsOf ↔ s ∈ candidates ∧ (t.data s).problem = some p := by
  simp only [List.mem_flatMap, problem_mem_findingsOf]
  constructor
  · rintro ⟨x, hx, rfl, hs⟩
    exact ⟨hx, hs⟩
  · exact fun h => ⟨s, h.1, rfl, h.2⟩

/-- A visit reports the problems of its candidates and perhaps a cycle. -/
theorem problem_mem_visitedFindings {name : NameId} {pending : List SymbolId} {stack : BaseStack}
    {s : SymbolId} {p : UseSiteProblem} : .problem s p ∈ t.visitedFindings name pending stack ↔
      s ∈ t.visitedCandidates name pending stack ∧ (t.data s).problem = some p := by
  have hvisit : ∀ visit : BaseVisit, .problem s p ∈ visit.findings t name ↔
      s ∈ visit.candidates t name ∧ (t.data s).problem = some p := by
    intro visit
    cases visit with
    | entered ty => exact problem_mem_flatMap_findingsOf
    | cycle ty => simp [BaseVisit.findings, BaseVisit.candidates]
  simp only [visitedFindings, visitedCandidates, List.mem_flatMap, hvisit]
  constructor
  · rintro ⟨visit, hmem, hs, hp⟩
    exact ⟨⟨visit, hmem, hs⟩, hp⟩
  · rintro ⟨⟨visit, hmem, hs⟩, hp⟩
    exact ⟨visit, hmem, hs, hp⟩

/-- Repeated visits come to the same candidates. -/
theorem mem_visitedCandidates_iff {name : NameId} {ty s : SymbolId} {stack : BaseStack} :
    s ∈ t.visitedCandidates name [ty] stack ↔ s ∈ t.hierarchyCandidates name ty stack := by
  rw [visitedCandidates_eq, hierarchyCandidates, searchOrder, ← newByKey_nil_enteredTypes]
  simp only [List.mem_flatMap, mem_newByKey]
  simp

end SymbolTable

/-! ### Problems along a chain -/

theorem Scope.problem_mem_findings {scope : Scope} {stack : BaseStack} {s : SymbolId} {p : UseSiteProblem} :
    .problem s p ∈ scope.findings t query stack ↔
      s ∈ scope.candidates t query stack ∧ (t.data s).problem = some p := by
  cases scope with
  | ofType ty =>
    rw [findings, SymbolTable.problem_mem_visitedFindings, SymbolTable.mem_visitedCandidates_iff]
    rfl
  | ofNamespace | ofImports | ofTypeParameters | ofLocals => exact SymbolTable.problem_mem_flatMap_findingsOf

/-- A lookup that is not called off reports the problems of the symbols in its result, whether
they were chosen or turned down, each of them once, and no problem of any other symbol. -/
theorem Resolver.reported_problems_iff_in_result (r : Resolver) (chain : ScopeChain) (request : LookupRequest)
    (hvalid : request.options.isValid = true) :
    ∃ result sink, r.lookup chain request false ∅ = (.ok result, sink) ∧
      (∀ s p, sink.toList.count (.problem s p) =
        if (s ∈ result.symbols ∨ s ∈ result.rejected) ∧ (r.table.data s).problem = some p then 1 else 0) ∧
      (result.isClear = true → ∀ s p, .problem s p ∉ sink) := by
  cases hname : r.names.find? request.name with
  | none =>
    refine ⟨_, _, lookup_of_find?_eq_none hvalid hname chain ∅, fun s p => ?_, fun _ s p => List.not_mem_nil⟩
    simp [LookupResult.empty, LookupResult.rejected]
  | some name =>
    let query := request.query name
    let candidates := chain.candidates r.table query
    let sink : Diagnostics := .ofList ((chain.searched r.table query).flatMap fun x => x.findings r.table query ∅)
    have hlookup : r.lookup chain request false ∅ = (.ok (.ofCandidates r.table query candidates), sink) :=
      lookup_eq hvalid hname chain ∅
    have hreported : ∀ s p, .problem s p ∈ sink ↔ s ∈ candidates ∧ (r.table.data s).problem = some p := by
      intro s p
      rw [OrderedSet.mem_ofList, List.mem_flatMap, ScopeChain.mem_candidates_iff]
      simp only [Scope.problem_mem_findings]
      constructor
      · rintro ⟨x, hx, hs, hp⟩
        exact ⟨⟨x, hx, hs⟩, hp⟩
      · rintro ⟨⟨x, hx, hs⟩, hp⟩
        exact ⟨x, hx, hs, hp⟩
    refine ⟨_, _, hlookup, fun s p => ?_, fun hclear s p hmem => ?_⟩
    · have hresult := @LookupResult.mem_ofCandidates_iff r.table query candidates s
      rw [List.Nodup.count sink.nodup]
      exact if_congr ((hreported s p).trans (and_congr_left' hresult.symm)) rfl rfl
    · have hnone : candidates = [] := LookupResult.isClear_ofCandidates_iff.1 hclear
      have hcandidate := ((hreported s p).1 hmem).1
      rw [hnone] at hcandidate
      exact List.not_mem_nil hcandidate

/-- Type 2 is the base of type 1 and has a private field 3 of an unsupported kind, and symbol 4
is a local variable of the same name that could not be read. -/
def faultyFieldBeforeLocal : Resolver where
  names := ⟨.ofList ["", "x"]⟩
  table := ((Builder.start .empty).declareAll
    [.symbol { name := ⟨0⟩, kind := .typeDecl .classType, container := some ⟨0⟩ },
      .symbol { name := ⟨0⟩, kind := .typeDecl .classType, container := some ⟨0⟩ },
      .symbol { name := ⟨1⟩, kind := .field, accessibility := .privateAccess, container := some ⟨2⟩,
                problem := some .unsupported },
      .symbol { name := ⟨1⟩, kind := .localVariable, container := some ⟨1⟩, problem := some .badMetadata },
      .base ⟨1⟩ ⟨2⟩]).table

theorem reported_problems_iff_in_result_faultyField :
    let r := faultyFieldBeforeLocal
    let request : LookupRequest := { name := "x" }
    let block : Scope := .ofLocals { kind := .block, locals := (∅ : NameTable).insert ⟨1⟩ ⟨4⟩ }
    request.options.isValid = true ∧
      ∃ result sink, r.lookup [.ofType ⟨1⟩, block] request false ∅ = (.ok result, sink) ∧
        result.symbols = [] ∧ result.rejected = [⟨3⟩] ∧
        sink.toList.count (.problem ⟨3⟩ .unsupported) = 1 ∧
        sink.toList.count (.problem ⟨4⟩ .badMetadata) = 0 := by
  intro r request block
  have hvalid : request.options.isValid = true := by decide
  obtain ⟨result, sink, hlookup, hcount, -⟩ :=
    Resolver.reported_problems_iff_in_result r [.ofType ⟨1⟩, block] request hvalid
  have hfound : (r.lookup [.ofType ⟨1⟩, block] request false ∅).1 =
      .ok ⟨.notViable, [], [⟨⟨3⟩, some .inaccessible⟩]⟩ := by decide +kernel
  rw [hlookup] at hfound
  cases hfound
  exact ⟨hvalid, _, sink, hlookup, rfl, rfl, (hcount ⟨3⟩ .unsupported).trans (by decide +kernel),
    (hcount ⟨4⟩ .badMetadata).trans (by decide +kernel)⟩

end NameResolution
