import NameResolution.Proofs.Access.Requirements
import NameResolution.Proofs.Chain.Entries
import NameResolution.Proofs.Chain.Totality

/-! Gates of scopes. A scope that refuses the options of a query is not searched. No symbol of a
kind that the scope can hold is usable under such options, so that a search would have found
nothing but symbols to turn down. The one exception are the type parameters of a method under
the option that excludes them, which the gate alone keeps out. -/

namespace NameResolution

open LookupResult (ofCandidates)

variable {t : SymbolTable} {query : ScopeQuery}

/-! ### Kinds that options exclude -/

/-- The options ask for something that no symbol of the kind is. -/
def LookupOptions.Excludes (o : LookupOptions) (kind : SymbolKind) : Prop :=
  o.labelsOnly = true ∧ kind ≠ .label ∨ o.namespaceAliasesOnly = true ∧ kind.isNamespaceAlias = false ∨
    o.mustBeInstance = true ∧ kind.isMember = false

namespace ScopeQuery

/-- A query turns down every symbol of a kind that its options exclude. -/
theorem not_viable_of_excludes (hvalid : query.options.isValid = true) {s : SymbolId}
    (h : query.options.Excludes (t.data s).kind) : query.check t s ≠ .viable := by
  intro hviable
  have hmet : ∀ r : Requirement, r.Asked query → r.Met query t s :=
    (Requirement.check_eq_viable_iff hvalid).1 hviable
  rcases h with ⟨hoption, hlabel⟩ | ⟨hoption, halias⟩ | ⟨hoption, hmember⟩
  · exact hlabel (hmet .label hoption)
  · rw [SymbolKind.isNamespaceAlias_iff.2 (hmet .namespaceAlias hoption)] at halias
    cases halias
  · rw [SymbolKind.isMember_iff.2 (hmet .instanceMember hoption).1] at hmember
    cases hmember

end ScopeQuery

/-! ### Kinds that scopes hold -/

namespace Scope

/-- The kinds of symbol that a scope is there for. -/
def Offers : Scope → SymbolKind → Prop
  | ofNamespace _, kind | ofType _, kind => kind.entersContainer = true
  | ofImports _, kind => kind.isNamespaceAlias = true ∨ kind.isType = true
  | ofTypeParameters _, kind => ∃ ordinal, kind = .typeParameter ordinal
  | ofLocals _, kind => kind = .localVariable ∨ kind = .parameter ∨ kind = .label

/-- The tables that the scope was given hold symbols of the kinds that they are there for. -/
def HoldsOwnKinds (t : SymbolTable) : Scope → Prop
  | ofNamespace _ | ofType _ => True
  | ofImports directives =>
    ∀ name, ∀ s ∈ directives.aliases.get name, (t.data s).kind.isNamespaceAlias = true
  | ofTypeParameters p => ∀ name, ∀ s ∈ p.parameters.get name, ∃ ordinal, (t.data s).kind = .typeParameter ordinal
  | ofLocals l =>
    (∀ name, ∀ s ∈ l.locals.get name, (t.data s).kind = .localVariable ∨ (t.data s).kind = .parameter) ∧
      ∀ name, ∀ s ∈ l.labels.get name, (t.data s).kind = .label

/-- Only what enters containers can be found in one, directly or by inheritance. -/
theorem HoldsOwnKinds.offers_of_mem_candidates {scope : Scope} (h : scope.HoldsOwnKinds t)
    (howned : t.MembersOwned) {stack : BaseStack} {s : SymbolId} (hs : s ∈ scope.candidates t query stack) :
    scope.Offers (t.data s).kind := by
  have hmember : ∀ c, s ∈ t.membersNamed c query.name → (t.data s).kind.entersContainer = true :=
    fun c hc => (SymbolData.memberOf?_eq_some_iff.1 (howned c query.name s hc).1).2
  cases scope with
  | ofNamespace container => exact hmember container hs
  | ofType ty =>
    obtain ⟨owner, -, howner⟩ := List.mem_flatMap.1 hs
    exact hmember owner howner
  | ofImports directives =>
    simp only [candidates, ImportScope.candidates] at hs
    split at hs
    · simp only [ImportScope.types, List.mem_flatMap, List.mem_filter] at hs
      obtain ⟨container, -, -, htype⟩ := hs
      exact Or.inr htype
    · exact Or.inl (h query.name s hs)
  | ofTypeParameters p => exact h query.name s hs
  | ofLocals l =>
    simp only [candidates, LocalScope.table] at hs
    split at hs
    · exact Or.inr (Or.inr (h.2 query.name s hs))
    · exact (h.1 query.name s hs).imp_right Or.inl

/-- Options that a gate refuses exclude all kinds that the scope is there for, the option against
type parameters of methods apart. -/
theorem excludes_of_offers {scope : Scope} {o : LookupOptions} (hrefuses : scope.admits o = false)
    (hparameters : o.mustNotBeMethodTypeParameter = false) {kind : SymbolKind} (h : scope.Offers kind) :
    o.Excludes kind := by
  have hmembers : kind.entersContainer = true → o.labelsOnly = true ∨ o.namespaceAliasesOnly = true →
      o.Excludes kind := by
    intro henters hoption
    refine hoption.imp (fun hlabels => ⟨hlabels, ?_⟩) fun haliases => Or.inl ⟨haliases, ?_⟩
    · rintro rfl
      cases henters
    · cases kind <;> first | rfl | cases henters
  cases scope <;> simp only [admits, hparameters, Bool.and_false, Bool.not_false, Bool.and_true,
    Bool.not_eq_false', Bool.or_eq_true] at hrefuses
  case ofNamespace | ofType => exact hmembers h hrefuses
  case ofImports =>
    refine Or.inl ⟨hrefuses, ?_⟩
    rintro rfl
    exact h.elim Bool.false_ne_true Bool.false_ne_true
  case ofTypeParameters =>
    obtain ⟨ordinal, rfl⟩ := h
    rcases hrefuses with (haliases | hinstance) | hlabels
    · exact Or.inr (Or.inl ⟨haliases, rfl⟩)
    · exact Or.inr (Or.inr ⟨hinstance, rfl⟩)
    · exact Or.inl ⟨hlabels, SymbolKind.noConfusion⟩
  case ofLocals => obtain rfl | rfl | rfl := h <;> exact Or.inr (hrefuses.imp (⟨·, rfl⟩) (⟨·, rfl⟩))

/-! ### Searching regardless -/

/-- A raised flag calls off the search of a type and concerns no other scope. -/
theorem search_of_cancelled (t : SymbolTable) (query : ScopeQuery) (scope : Scope) (s : Search) :
    scope.search ⟨t, true⟩ query s.afresh = s.afresh.interrupted .cancelled ∨
      scope.search ⟨t, true⟩ query s.afresh = scope.search ⟨t, false⟩ query s.afresh := by
  cases scope with
  | ofType ty => exact Or.inl (@searchHierarchy_of_cancelled ⟨t, true⟩ rfl query ty s.afresh)
  | ofNamespace | ofImports | ofTypeParameters | ofLocals => exact Or.inr rfl

/-- A scope with symbols of excluded kinds alone has nothing but symbols to turn down. -/
theorem HoldsOwnKinds.nothing_usable {scope : Scope} (h : scope.HoldsOwnKinds t) (howned : t.MembersOwned)
    (hvalid : query.options.isValid = true)
    (hexcludes : ∀ kind, scope.Offers kind → query.options.Excludes kind) (s : Search) :
    (scope.search ⟨t, false⟩ query s.afresh).result.symbols = [] ∧
      ((scope.search ⟨t, false⟩ query s.afresh).result.kind = .empty ∨
        (scope.search ⟨t, false⟩ query s.afresh).result.kind = .notViable) := by
  rw [scope.search_eq t query s]
  have hconsistent : (ofCandidates t query (scope.candidates t query s.stack)).Consistent t :=
    LookupResult.consistent_collect t _ _
  have hsymbols : (ofCandidates t query (scope.candidates t query s.stack)).symbols = [] := by
    rw [LookupResult.symbols_ofCandidates, newByKey_eq_nil_iff]
    intro x hx
    obtain ⟨hx, hviable⟩ := List.mem_filter.1 hx
    have hkind := hexcludes _ (h.offers_of_mem_candidates howned hx)
    exact absurd (of_decide_eq_true hviable) (ScopeQuery.not_viable_of_excludes hvalid hkind)
  refine ⟨hsymbols, ?_⟩
  change (ofCandidates t query _).kind = _ ∨ (ofCandidates t query _).kind = _
  rw [hconsistent.kind_eq_empty_iff, hconsistent.kind_eq_notViable_iff, hsymbols]
  simp [em]

/-- Skipping a scope whose gate refuses the options of a query loses no usable symbol. A search of
the scope would have come to its end with nothing found or with symbols turned down. Only a gate
that keeps out the type parameters of a method for the sake of that one option keeps out what a
search would have found without the option. -/
theorem skipping_loses_nothing (names : Interner) (steps : List Declaration) (scope : Scope)
    (query : ScopeQuery) (hvalid : query.options.isValid = true)
    (hrefuses : scope.admits query.options = false) :
    let t := ((Builder.start names).declareAll steps).table
    let permitted := { query with options := { query.options with mustNotBeMethodTypeParameter := false } }
    scope.HoldsOwnKinds t → ∀ (cancelled : Bool) (stack : BaseStack) (sink : Diagnostics),
      let found := scope.search ⟨t, cancelled⟩ query { stack, sink }
      (cancelled = false → found.interruption = none) ∧
      (scope.admits permitted.options = false →
        found.result.symbols = [] ∧ (found.result.kind = .empty ∨ found.result.kind = .notViable)) ∧
      (scope.admits permitted.options = true →
        (∃ p, scope = .ofTypeParameters p ∧ p.level = .method) ∧
          query.options.mustNotBeMethodTypeParameter = true ∧
          found = scope.search ⟨t, cancelled⟩ permitted { stack, sink }) := by
  intro t permitted hkinds cancelled stack sink found
  have howned : t.MembersOwned := SymbolTable.membersOwned_declareAll names steps
  refine ⟨?_, ?_, ?_⟩
  · rintro rfl
    have hfound : found = _ := scope.search_eq t query { stack, sink }
    rw [hfound]
    rfl
  · intro hstill
    have hexcludes : ∀ kind, scope.Offers kind → query.options.Excludes kind :=
      fun kind hkind => excludes_of_offers hstill rfl hkind
    have hnothing := hkinds.nothing_usable howned hvalid hexcludes { stack, sink }
    cases cancelled with
    | false => exact hnothing
    | true =>
      rcases search_of_cancelled t query scope { stack, sink } with hcancelled | hsame
      · have hfound : found = _ := hcancelled
        rw [hfound]
        exact ⟨rfl, Or.inl rfl⟩
      · have hfound : found = _ := hsame
        rw [hfound]
        exact hnothing
  · intro hadmits
    cases scope with
    | ofNamespace | ofImports | ofType | ofLocals => exact absurd (hrefuses.symm.trans hadmits) Bool.false_ne_true
    | ofTypeParameters p =>
      have hgate : (p.level == .method && query.options.mustNotBeMethodTypeParameter) = true := by
        simp only [admits, permitted, Bool.and_false, Bool.not_false, Bool.and_true] at hadmits
        simpa only [admits, hadmits, Bool.true_and, Bool.not_eq_false'] using hrefuses
      rw [Bool.and_eq_true, beq_iff_eq] at hgate
      exact ⟨⟨p, rfl, hgate.1⟩, hgate.2, rfl⟩

/-- Type 1 is a base of type 2 and has a field 3. Method 4 of type 2 has a type parameter 5. -/
def fieldAndTypeParameter : List Declaration :=
  [.typeIn ⟨0⟩ "Base" .classType 0, .typeIn ⟨0⟩ "Derived" .classType 0,
    .memberIn ⟨1⟩ "x" .field .publicAccess, .memberIn ⟨2⟩ "M" .method .publicAccess,
    .typeParameters ⟨4⟩ ["T"], .base ⟨2⟩ ⟨1⟩]

/-- The inherited field is not a label. The type parameter passes every check of its own. -/
theorem skipping_loses_nothing_fieldAndTypeParameter :
    let t := ((Builder.start .empty).declareAll fieldAndTypeParameter).table
    let labels : ScopeQuery := ⟨⟨3⟩, 0, { labelsOnly := true }, {}, true⟩
    let excluding : ScopeQuery := ⟨⟨5⟩, 0, { mustNotBeMethodTypeParameter := true }, {}, true⟩
    let permitting : ScopeQuery := ⟨⟨5⟩, 0, {}, {}, true⟩
    let parameters := Scope.typeParameters t .method ⟨4⟩ [⟨5⟩]
    labels.options.isValid = true ∧ (ofType ⟨2⟩).admits labels.options = false ∧
      ((ofType ⟨2⟩).search ⟨t, false⟩ labels {}).result.symbols = [] ∧
      ((ofType ⟨2⟩).search ⟨t, false⟩ labels {}).result.rejections = [⟨⟨3⟩, some .notALabel⟩] ∧
      excluding.options.isValid = true ∧ parameters.admits excluding.options = false ∧
      parameters.HoldsOwnKinds t ∧
      parameters.search ⟨t, false⟩ excluding {} = parameters.search ⟨t, false⟩ permitting {} ∧
      (parameters.search ⟨t, false⟩ permitting {}).result.symbols = [⟨5⟩] := by
  intro t labels excluding permitting parameters
  have hlabels : labels.options.isValid = true := by decide
  have hexcluding : excluding.options.isValid = true := by decide
  have hkinds : parameters.HoldsOwnKinds t := by
    intro name s hs
    obtain ⟨hs, -⟩ := NameTable.mem_get_declare_empty.1 hs
    rw [List.mem_singleton.1 hs]
    exact ⟨0, by decide +kernel⟩
  have hfield := skipping_loses_nothing .empty fieldAndTypeParameter (ofType ⟨2⟩) labels hlabels rfl trivial
  have hparameter := skipping_loses_nothing .empty fieldAndTypeParameter parameters excluding hexcluding rfl hkinds
  obtain ⟨-, hnothing, -⟩ := hfield false ∅ ∅
  obtain ⟨-, -, hsame⟩ := hparameter false ∅ ∅
  exact ⟨hlabels, rfl, (hnothing rfl).1, by decide +kernel, hexcluding, rfl, hkinds, (hsame rfl).2.2,
    by decide +kernel⟩

end Scope

end NameResolution
