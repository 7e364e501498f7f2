import NameResolution.Proofs.Chain.Entries
import NameResolution.Proofs.Chain.Totality
import NameResolution.Proofs.Tables.Agreement

/-! Symbols that have nothing to do with a lookup. A table that gains a symbol agrees with the table
before on every name but that of the symbol. Lookups of the other names examine the same candidates
along scopes of the earlier symbols, judge them alike and report the same problems. -/

namespace NameResolution

namespace SymbolTable.AgreesOn

variable {t later : SymbolTable} {query : ScopeQuery} (h : t.AgreesOn query.name later)
include h

/-! ### Searching a type -/

theorem isTransparent_eq : later.isTransparent query.name = t.isTransparent query.name := by
  funext ty
  rw [isTransparent, h.membersNamed_eq, isTransparent]

theorem hierarchyCandidates_eq (ty : SymbolId) (stack : BaseStack) :
    later.hierarchyCandidates query.name ty stack = t.hierarchyCandidates query.name ty stack := by
  rw [hierarchyCandidates, searchOrder, h.isTransparent_eq, h.walkBases_eq, hierarchyCandidates, searchOrder]
  simp only [h.membersNamed_eq]

theorem explore_eq (follows : SymbolId → Bool) (pending path : List SymbolId) :
    later.explore follows pending path = t.explore follows pending path := by
  induction pending, path using explore_induction t follows with
  | done path => rw [explore_nil, explore_nil]
  | cycle ty rest path hmem ih => rw [explore_cons_of_mem hmem, explore_cons_of_mem hmem, ih]
  | enter ty rest path hnew ihBases ihRest =>
    rw [explore_cons_of_not_mem hnew, explore_cons_of_not_mem hnew, h.followed_eq, ihBases, ihRest]

theorem flatMap_findingsOf_eq {symbols : List SymbolId} (hsymbols : ∀ s ∈ symbols, t.contains s = true) :
    symbols.flatMap later.findingsOf = symbols.flatMap t.findingsOf := by
  apply List.flatMap_congr
  intro s hs
  rw [findingsOf, h.data_eq s (hsymbols s hs), findingsOf]

theorem visitedFindings_eq (pending : List SymbolId) (stack : BaseStack) :
    later.visitedFindings query.name pending stack = t.visitedFindings query.name pending stack := by
  rw [visitedFindings, visits, h.isTransparent_eq, h.explore_eq, visitedFindings, visits]
  apply List.flatMap_congr
  intro visit _
  cases visit with
  | cycle ty => rfl
  | entered ty =>
    rw [BaseVisit.findings, h.membersNamed_eq, BaseVisit.findings]
    exact h.flatMap_findingsOf_eq fun s hs => SymbolTable.contains_of_mem_membersNamed hs

/-! ### Searching scopes -/

theorem candidates_eq (scope : Scope) (stack : BaseStack) :
    scope.candidates later query stack = scope.candidates t query stack := by
  cases scope with
  | ofNamespace container => exact h.membersNamed_eq container
  | ofType ty => exact h.hierarchyCandidates_eq ty stack
  | ofTypeParameters | ofLocals => rfl
  | ofImports directives =>
    have htypes : directives.types later query.name = directives.types t query.name := by
      apply List.flatMap_congr
      intro container _
      rw [h.membersNamed_eq]
      apply List.filter_congr
      intro s hs
      rw [h.data_eq s (SymbolTable.contains_of_mem_membersNamed hs)]
    rw [Scope.candidates, ImportScope.candidates, htypes, Scope.candidates, ImportScope.candidates]

theorem findings_eq (howned : t.MembersOwned) {scope : Scope} (hscope : scope.BuiltFrom t) :
    scope.findings later query ∅ = scope.findings t query ∅ := by
  have hfound : (scope.candidates later query ∅).flatMap later.findingsOf =
      (scope.candidates t query ∅).flatMap t.findingsOf := by
    rw [h.candidates_eq]
    exact h.flatMap_findingsOf_eq fun s hs => (hscope.of_mem_candidates howned hs).1
  cases scope with
  | ofType ty => exact h.visitedFindings_eq [ty] ∅
  | ofNamespace | ofImports | ofTypeParameters | ofLocals => exact hfound

theorem decides_eq (scope : Scope) : scope.decides later query = scope.decides t query := by
  rw [Bool.eq_iff_iff, Scope.decides_iff, Scope.decides_iff, h.candidates_eq]

theorem chain_candidates_eq (chain : ScopeChain) :
    chain.candidates later query = chain.candidates t query := by
  simp only [ScopeChain.candidates, h.decides_eq, h.candidates_eq]

theorem chain_findings_eq (howned : t.MembersOwned) {chain : ScopeChain} (hchain : ∀ x ∈ chain, x.BuiltFrom t) :
    ((chain.searched later query).flatMap fun x => x.findings later query ∅) =
      (chain.searched t query).flatMap fun x => x.findings t query ∅ := by
  have hsearched : chain.searched later query = chain.searched t query := by
    simp only [ScopeChain.searched, h.decides_eq]
  rw [hsearched]
  apply List.flatMap_congr
  intro x hx
  exact h.findings_eq howned (hchain x (ScopeChain.mem_of_mem_searched hx))

end SymbolTable.AgreesOn

/-! ### Lookups -/

/-- A symbol that is added concerns its own name alone. -/
theorem Builder.agreesOn_add (b : Builder) {d : SymbolData} {name : NameId} (h : name ≠ d.name) :
    b.table.AgreesOn name (b.add d).2.table where
  membersNamed_eq := SymbolTable.membersNamed_add_of_ne h
  bases_eq := b.table.bases_add d
  data_eq s hs := by
    have hdata : (b.add d).2.table.data s = if s.index = b.table.size then b.table.placed d else b.table.data s :=
      b.table.data_add d s
    rw [hdata, if_neg (Nat.ne_of_lt (of_decide_eq_true hs))]

namespace Resolver

/-- Resolvers whose tables agree on the name that is looked up. -/
theorem lookup_eq_of_agreesOn {r later : Resolver} {chain : ScopeChain} {request : LookupRequest}
    (howned : r.table.MembersOwned) (hchain : ∀ x ∈ chain, x.BuiltFrom r.table)
    (hcontext : ∀ place, request.context.within = some place → r.table.contains place = true)
    (hfind : later.names.find? request.name = r.names.find? request.name)
    (hagrees : ∀ name, r.names.find? request.name = some name → r.table.AgreesOn name later.table)
    (cancelled : Bool) (sink : Diagnostics) :
    later.lookup chain request cancelled sink = r.lookup chain request cancelled sink := by
  cases hvalid : request.options.isValid with
  | false =>
    rw [lookup, lookup, hvalid]
    simp only [Bool.not_false, if_true]
  | true =>
    cases cancelled with
    | true => rw [lookup_of_cancelled _ chain hvalid, lookup_of_cancelled _ chain hvalid]
    | false =>
      cases hname : r.names.find? request.name with
      | none =>
        rw [lookup_of_find?_eq_none hvalid hname, lookup_of_find?_eq_none hvalid (hfind.trans hname)]
      | some name =>
        have h : r.table.AgreesOn (request.query name).name later.table := hagrees name hname
        have hknown : ∀ s ∈ chain.candidates r.table (request.query name), r.table.contains s = true :=
          fun s hs => (ScopeChain.of_mem_candidates hchain howned hs).1
        have hresult := LookupResult.ofCandidates_congr (fun s hs => h.data_eq s (hknown s hs))
          fun s hs => @SymbolTable.AgreesOn.check_eq _ _ _ h (request.query name) hcontext s (hknown s hs)
        rw [lookup_eq hvalid (hfind.trans hname), lookup_eq hvalid hname, h.chain_candidates_eq,
          h.chain_findings_eq howned hchain, hresult]

/-- Declaring a symbol changes no lookup of another name. Whatever has been declared before, scopes
and references among the earlier symbols give the same outcome with the symbol and without it, and
leave the same diagnostics in the sink. -/
theorem unrelated_symbols_change_no_lookup (names : Interner) (steps : List Declaration) (d : SymbolData)
    (text : String) (before after : Interner) (htext : after.text? d.name = some text)
    (hnames : ∀ other, other ≠ text → after.find? other = before.find? other) (settings : SuggestionSettings)
    (request : LookupRequest) (hother : request.name ≠ text) :
    let b := (Builder.start names).declareAll steps
    let r : Resolver := ⟨before, b.table, settings⟩
    let later : Resolver := ⟨after, (b.add d).2.table, settings⟩
    (∀ place, request.context.within = some place → b.table.contains place = true) →
      ∀ (cancelled : Bool) (sink : Diagnostics),
        (∀ chain : ScopeChain, (∀ x ∈ chain, x.BuiltFrom b.table) →
          later.lookup chain request cancelled sink = r.lookup chain request cancelled sink) ∧
        ∀ ty, b.table.contains ty = true →
          later.lookupInType ty request cancelled sink = r.lookupInType ty request cancelled sink := by
  intro b r later hcontext cancelled sink
  have howned : r.table.MembersOwned := SymbolTable.membersOwned_declareAll names steps
  have hfind : later.names.find? request.name = r.names.find? request.name := hnames request.name hother
  have hagrees : ∀ name, r.names.find? request.name = some name → r.table.AgreesOn name later.table := by
    intro name hname
    -- Only the symbol's own name has its text, so a name of another text is another name.
    apply b.agreesOn_add
    rintro rfl
    have hsame : after.text? d.name = some request.name := Interner.find?_eq_some_iff.1 (hfind.trans hname)
    rw [htext] at hsame
    exact hother (Option.some.inj hsame).symm
  have hlookup : ∀ chain : ScopeChain, (∀ x ∈ chain, x.BuiltFrom b.table) →
      later.lookup chain request cancelled sink = r.lookup chain request cancelled sink :=
    fun chain hchain => lookup_eq_of_agreesOn howned hchain hcontext hfind hagrees cancelled sink
  refine ⟨hlookup, fun ty hty => hlookup [.ofType ty] ?_⟩
  intro x hx
  rw [List.mem_singleton.1 hx]
  exact .ofType ty hty

/-- Type 1 has a private field 3 and is a base of type 2, which is nested in it. -/
def nestedInBase : List Declaration :=
  [.typeIn ⟨0⟩ "Base" .classType 0, .typeIn ⟨1⟩ "Derived" .classType 0,
    .memberIn ⟨1⟩ "x" .field .privateAccess, .base ⟨2⟩ ⟨1⟩]

/-- Another field in the derived type does not hide the inherited one. -/
theorem unrelated_symbols_change_no_lookup_secondField :
    let b := (Builder.start .empty).declareAll nestedInBase
    let d : SymbolData := { name := ⟨4⟩, kind := .field, container := some ⟨2⟩ }
    let r : Resolver := ⟨b.names, b.table, {}⟩
    let later : Resolver := ⟨(b.names.intern "y").2, (b.add d).2.table, {}⟩
    let chain : ScopeChain := [.ofType ⟨2⟩, .ofNamespace ⟨0⟩]
    let request : LookupRequest := { name := "x", context := { within := some ⟨2⟩ } }
    later.names.text? d.name = some "y" ∧
      (∀ other, other ≠ "y" → later.names.find? other = r.names.find? other) ∧
      (∀ place, request.context.within = some place → b.table.contains place = true) ∧
      (∀ x ∈ chain, x.BuiltFrom b.table) ∧
      later.lookup chain request false ∅ = r.lookup chain request false ∅ ∧
      (r.lookup chain request false ∅).1 = .ok ⟨.viable, [⟨3⟩], []⟩ ∧
      (later.lookup chain { request with name := "y" } false ∅).1 = .ok ⟨.viable, [⟨4⟩], []⟩ := by
  intro b d r later chain request
  have htext : later.names.text? d.name = some "y" := by decide +kernel
  have hnames : ∀ other, other ≠ "y" → later.names.find? other = r.names.find? other :=
    fun other hother => Interner.find?_intern_of_ne hother
  have hcontext : ∀ place, request.context.within = some place → b.table.contains place = true := by
    rintro place ⟨⟩
    decide +kernel
  have hchain : ∀ x ∈ chain, x.BuiltFrom b.table := by
    simp only [chain, List.forall_mem_cons]
    refine ⟨.ofType _ ?_, .ofNamespace _ ?_, List.forall_mem_nil _⟩ <;> decide +kernel
  have hsame := unrelated_symbols_change_no_lookup .empty nestedInBase d "y" r.names later.names htext
    hnames {} request (by decide) hcontext false ∅
  exact ⟨htext, hnames, hcontext, hchain, hsame.1 chain hchain, by decide +kernel, by decide +kernel⟩

end Resolver

end NameResolution
