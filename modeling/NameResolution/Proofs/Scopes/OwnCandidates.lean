import NameResolution.Proofs.Chain.Entries
import NameResolution.Proofs.Tables.Contents

/-! What scopes without inheritance offer. Directives and local declarations reach a scope one by
one and in any mixture, and the scope sorts them by kind, by name and into first occurrences. A
lookup in the scope alone then splits the symbols of the name into usable ones and others. -/

namespace NameResolution

variable {t : SymbolTable} {query : ScopeQuery}

/-! ### Declarations of a scope -/

/-- A directive imports a namespace or brings an alias into effect. -/
inductive Directive where
  | imports (container : SymbolId)
  | namespaceAlias (s : SymbolId)

def Directive.imported? : Directive → Option SymbolId
  | imports container => some container
  | namespaceAlias _ => none

def Directive.aliasSymbol? : Directive → Option SymbolId
  | imports _ => none
  | namespaceAlias s => some s

/-- An alias is recorded under its own name. -/
def ImportScope.apply (t : SymbolTable) (scope : ImportScope) : Directive → ImportScope
  | .imports container => { scope with imported := scope.imported.insert container }
  | .namespaceAlias s => { scope with aliases := scope.aliases.insert (t.data s).name s }

/-- A statement declares a variable or a label. -/
inductive LocalDeclaration where
  | bound (s : SymbolId)
  | label (s : SymbolId)

def LocalDeclaration.bound? : LocalDeclaration → Option SymbolId
  | bound s => some s
  | label _ => none

def LocalDeclaration.label? : LocalDeclaration → Option SymbolId
  | bound _ => none
  | label s => some s

def LocalScope.apply (t : SymbolTable) (scope : LocalScope) : LocalDeclaration → LocalScope
  | .bound s => { scope with locals := scope.locals.insert (t.data s).name s }
  | .label s => { scope with labels := scope.labels.insert (t.data s).name s }

/-- The scopes that inherit nothing, with the declarations they are made from. -/
inductive PlainScope where
  | ofNamespace (container : SymbolId)
  | ofDirectives (directives : List Directive)
  | ofTypeParameters (level : GenericLevel) (owner : SymbolId) (parameters : List SymbolId)
  | ofLocals (kind : LocalScopeKind) (declarations : List LocalDeclaration)

def PlainScope.toScope (t : SymbolTable) : PlainScope → Scope
  | ofNamespace container => .ofNamespace container
  | ofDirectives directives => .ofImports (directives.foldl (ImportScope.apply t) {})
  | ofTypeParameters level owner parameters => .typeParameters t level owner parameters
  | ofLocals kind declarations => .ofLocals (declarations.foldl (LocalScope.apply t) { kind })

/-! ### Symbols of a name -/

namespace SymbolTable

/-- The symbols of a list that have a name, each at its first occurrence. -/
def named (t : SymbolTable) (name : NameId) (symbols : List SymbolId) : List SymbolId :=
  (symbols.filter fun s => (t.data s).name = name).eraseDups

/-- The namespaces, types and members of a name whose data put them into a container, in the order
of declaration. -/
def declaredIn (t : SymbolTable) (container : SymbolId) (name : NameId) : List SymbolId :=
  t.ids.filter fun s => (t.data s).memberOf? = some container ∧ (t.data s).name = name

end SymbolTable

/-- The symbols that a plain scope offers under the name of a query. Aliases hide imported types,
also where only aliases are asked for. -/
def PlainScope.candidates (t : SymbolTable) (query : ScopeQuery) : PlainScope → List SymbolId
  | ofNamespace container => t.declaredIn container query.name
  | ofDirectives directives =>
    let aliases := t.named query.name (directives.filterMap Directive.aliasSymbol?)
    if aliases ≠ [] then aliases
    else if query.options.namespaceAliasesOnly then []
    else (directives.filterMap Directive.imported?).eraseDups.flatMap fun container =>
      (t.declaredIn container query.name).filter fun s => (t.data s).isType
  | ofTypeParameters _ _ parameters => t.named query.name parameters
  | ofLocals _ declarations =>
    if query.options.labelsOnly then t.named query.name (declarations.filterMap LocalDeclaration.label?)
    else t.named query.name (declarations.filterMap LocalDeclaration.bound?)

/-! ### What the declarations amount to -/

namespace NameTable

theorem get_declare_empty (t : SymbolTable) (symbols : List SymbolId) (name : NameId) :
    (declare t ∅ symbols).get name = t.named name symbols := by
  have hnew := newByKey_id_eq_eraseDups [] (symbols.filter fun s => (t.data s).name = name)
  rw [List.removeAll_nil] at hnew
  rw [get_declare, SymbolTable.named, ← hnew]
  rfl

end NameTable

/-- Directives of one kind do not interfere with those of the other. -/
theorem ImportScope.foldl_apply (t : SymbolTable) (scope : ImportScope) (directives : List Directive) :
    directives.foldl (apply t) scope =
      { imported := scope.imported.insertAll (directives.filterMap Directive.imported?)
        aliases := NameTable.declare t scope.aliases (directives.filterMap Directive.aliasSymbol?) } := by
  induction directives generalizing scope with
  | nil => rfl
  | cons directive directives ih =>
    rw [List.foldl_cons, ih]
    cases directive <;> rfl

theorem LocalScope.foldl_apply (t : SymbolTable) (scope : LocalScope) (declarations : List LocalDeclaration) :
    declarations.foldl (apply t) scope =
      { scope with
        locals := NameTable.declare t scope.locals (declarations.filterMap LocalDeclaration.bound?)
        labels := NameTable.declare t scope.labels (declarations.filterMap LocalDeclaration.label?) } := by
  induction declarations generalizing scope with
  | nil => rfl
  | cons declaration declarations ih =>
    rw [List.foldl_cons, ih]
    cases declaration <;> rfl

namespace PlainScope

theorem toScope_ofDirectives (t : SymbolTable) (directives : List Directive) :
    (ofDirectives directives).toScope t = .imports t (directives.filterMap Directive.imported?)
      (directives.filterMap Directive.aliasSymbol?) :=
  congrArg Scope.ofImports (ImportScope.foldl_apply t {} directives)

theorem toScope_ofLocals (t : SymbolTable) (kind : LocalScopeKind) (declarations : List LocalDeclaration) :
    (ofLocals kind declarations).toScope t =
      .locals t kind (declarations.filterMap LocalDeclaration.bound?)
        (declarations.filterMap LocalDeclaration.label?) :=
  congrArg Scope.ofLocals (LocalScope.foldl_apply t { kind } declarations)

/-! ### Candidates -/

theorem candidates_toScope (h : t.MembersListed) (scope : PlainScope) (stack : BaseStack) :
    (scope.toScope t).candidates t query stack = scope.candidates t query := by
  have hmembers : ∀ c, t.membersNamed c query.name = t.declaredIn c query.name := fun c => h c query.name
  cases scope with
  | ofNamespace container => exact hmembers container
  | ofTypeParameters level owner parameters => exact NameTable.get_declare_empty t parameters query.name
  | ofLocals kind declarations =>
    rw [toScope_ofLocals]
    simp only [Scope.locals, Scope.candidates, LocalScope.table, candidates]
    split
    · exact NameTable.get_declare_empty t _ query.name
    · exact NameTable.get_declare_empty t _ query.name
  | ofDirectives directives =>
    have htypes : ∀ imported aliases, (⟨imported, aliases⟩ : ImportScope).types t query.name =
        imported.toList.flatMap fun c => (t.declaredIn c query.name).filter fun s => (t.data s).isType := by
      intro imported aliases
      simp only [ImportScope.types, hmembers]
    rw [toScope_ofDirectives]
    simp only [Scope.imports, Scope.candidates, ImportScope.candidates, NameTable.get_declare_empty, htypes,
      OrderedSet.toList_ofList_eq_eraseDups, candidates]
    by_cases hnone : t.named query.name (directives.filterMap Directive.aliasSymbol?) = []
    · cases query.options.namespaceAliasesOnly <;> simp [hnone]
    · simp [hnone]

theorem nodup_candidates (h : t.MembersListed) (scope : PlainScope) : (scope.candidates t query).Nodup := by
  have hdistinct : ∀ xs : List SymbolId, xs.eraseDups.Nodup := by
    intro xs
    rw [← OrderedSet.toList_ofList_eq_eraseDups]
    exact OrderedSet.nodup _
  have hmembers : ∀ c, t.declaredIn c query.name = t.membersNamed c query.name := fun c => (h c query.name).symm
  cases scope with
  | ofNamespace container =>
    rw [candidates, hmembers]
    exact NameTable.nodup_get _ _
  | ofTypeParameters level owner parameters => exact hdistinct _
  | ofLocals kind declarations =>
    rw [candidates]
    split <;> exact hdistinct _
  | ofDirectives directives =>
    simp only [candidates, hmembers]
    split
    · exact hdistinct _
    · split
      · exact List.nodup_nil
      · rw [← List.filter_flatMap]
        exact (h.membersOwned.nodup_flatMap (hdistinct _) query.name).filter _

/-- None of these scopes asks whether the search has been called off. -/
theorem search_toScope (h : t.MembersListed) (cancelled : Bool) (scope : PlainScope) (s : Search) :
    (scope.toScope t).search ⟨t, cancelled⟩ query s.afresh =
      s.ended t query (scope.candidates t query) ((scope.toScope t).findings t query s.stack) := by
  have hflag : (scope.toScope t).search ⟨t, cancelled⟩ query s.afresh =
      (scope.toScope t).search ⟨t, false⟩ query s.afresh := by
    cases scope <;> rfl
  rw [hflag, Scope.search_eq, candidates_toScope h]

end PlainScope

/-- A lookup in a namespace, among directives, type parameters or local declarations splits the
symbols that the scope offers under the name, without repetition, into those that the query accepts
and those that it turns down, both in their order. -/
theorem plain_scopes_partition_candidates (names : Interner) (script : Script names) (scope : PlainScope)
    (query : ScopeQuery) (cancelled : Bool) (stack : BaseStack) (sink : Diagnostics) :
    let t := script.table
    let candidates := scope.candidates t query
    let found := (scope.toScope t).search ⟨t, cancelled⟩ query { stack, sink }
    found.interruption = none ∧ candidates.Nodup ∧
      found.result.symbols = candidates.filter (fun s => query.check t s = .viable) ∧
      found.result.rejected = candidates.filter (fun s => query.check t s ≠ .viable) ∧
      ∀ s ∈ candidates, Xor (s ∈ found.result.symbols) (s ∈ found.result.rejected) := by
  intro t candidates found
  have hlisted : t.MembersListed := SymbolTable.membersListed_declareAll names script.steps
  have hnodup : candidates.Nodup := PlainScope.nodup_candidates hlisted scope
  have hfound : found = _ := PlainScope.search_toScope hlisted cancelled scope { stack, sink }
  have hpartition : found.result.Partitions t query candidates := by
    rw [hfound]
    exact LookupResult.partitions_ofCandidates hnodup
  have hrejected : found.result.rejected = candidates.filter fun s => query.check t s ≠ .viable := by
    rw [LookupResult.rejected, hpartition.rejections_eq, LookupResult.map_symbol_filterMap_rejection?]
  refine ⟨?_, hnodup, hpartition.symbols_eq, hrejected, fun s hs => ?_⟩
  · rw [hfound]
    rfl
  · rw [hpartition.symbols_eq, hrejected, List.mem_filter, List.mem_filter]
    by_cases hviable : query.check t s = .viable <;> simp [hs, hviable, Xor]

/-- Namespaces 1 and 2 declare types 3 and 5 of the same name, of which one is generic, and so is a
namespace inside the first called. Symbol 6 is an alias for the first namespace. -/
def typesOfTwoNamespaces : Script .empty where
  steps := [.namespaceIn ⟨0⟩ "A", .namespaceIn ⟨0⟩ "B", .typeIn ⟨1⟩ "T" .classType 0, .namespaceIn ⟨1⟩ "T",
    .typeIn ⟨2⟩ "T" .classType 1, .name "U",
    .symbol { name := ⟨4⟩, kind := .namespaceAlias ⟨1⟩, container := some ⟨0⟩ }]
  knowsContainers := by decide +kernel

/-- The second namespace is imported first, the alias has another name, and the nested namespace is
not imported. -/
theorem plain_scopes_partition_candidates_mixedDirectives :
    let t := typesOfTwoNamespaces.table
    let directives : List Directive := [.imports ⟨2⟩, .namespaceAlias ⟨6⟩, .imports ⟨1⟩, .imports ⟨2⟩]
    let query : ScopeQuery := ⟨⟨3⟩, 0, { exactArity := true }, {}, true⟩
    let scope : PlainScope := .ofDirectives directives
    let found := (scope.toScope t).search ⟨t, true⟩ query {}
    scope.candidates t query = [⟨5⟩, ⟨3⟩] ∧ found.result.symbols = [⟨3⟩] ∧ found.result.rejected = [⟨5⟩] := by
  intro t directives query scope found
  obtain ⟨-, -, hsymbols, hrejected, -⟩ :=
    plain_scopes_partition_candidates .empty typesOfTwoNamespaces scope query true ∅ ∅
  have hcandidates : scope.candidates t query = [⟨5⟩, ⟨3⟩] := by decide +kernel
  refine ⟨hcandidates, hsymbols.trans ?_, hrejected.trans ?_⟩
  · rw [hcandidates]
    decide +kernel
  · rw [hcandidates]
    decide +kernel

end NameResolution
