import NameResolution.Proofs.Chain.Entries
import NameResolution.Proofs.Chain.Totality
import NameResolution.Proofs.Scenario.Bases

/-! Which scenarios are accepted. Containers and alias targets have to be known from the declarations
before, base types and the paths of scopes from anywhere in the scenario, and only the paths that a
kind of declaration or scope uses matter. What is accepted has a table and a chain of scopes that hold
declared symbols only, so that its lookups fail for their own reasons only. -/

namespace NameResolution

/-! ### Well-formed scenarios -/

/-- The words for kinds of symbols. -/
def SymbolDecl.kinds : List String :=
  ["namespace", "class", "struct", "interface", "enum", "delegate", "method", "field", "property", "event",
    "local", "parameter", "label", "alias"]

def SymbolDecl.accessibilities : List String :=
  ["public", "internal", "protected", "protected-internal", "private-protected", "private"]

/-- The texts for use-site problems. -/
def IsProblemText (text : String) : Prop :=
  text = "bad-metadata" ∨ text = "unsupported" ∨ ∃ module, text = "missing-module:" ++ module

/-- A declaration that can be read where these paths are known. -/
structure SymbolDecl.WellFormed (known : List String) (decl : SymbolDecl) : Prop where
  container : ∃ container ∈ known, ∃ name, '.' ∉ name.toList ∧ PathInside container name decl.path
  kind : decl.kind ∈ kinds
  target : decl.kind = "alias" → ∃ target ∈ known, decl.target = some target
  accessibility : ∀ word, decl.accessibility = some word → word ∈ accessibilities
  problem : ∀ text, decl.problem = some text → IsProblemText text

/-- The kinds of scopes that belong to a symbol. -/
def ScopeDecl.ownedKinds : List String := ["namespace", "type", "type-parameters", "method-type-parameters"]

/-- The kinds of scopes that hold locals and labels. -/
def ScopeDecl.localKinds : List String := ["body", "block", "lambda"]

/-- A scope that can be built where these paths are known. -/
structure ScopeDecl.WellFormed (known : List String) (decl : ScopeDecl) : Prop where
  kind : decl.kind ∈ ownedKinds ∨ decl.kind = "imports" ∨ decl.kind ∈ localKinds
  owner : decl.kind ∈ ownedKinds → ∃ path ∈ known, decl.owner = some path
  imported : decl.kind = "imports" → (∀ path ∈ decl.imports, path ∈ known) ∧ ∀ path ∈ decl.aliases, path ∈ known
  bound : decl.kind ∈ localKinds → (∀ path ∈ decl.locals, path ∈ known) ∧ ∀ path ∈ decl.labels, path ∈ known

structure Scenario.WellFormed (scenario : Scenario) : Prop where
  symbols : ∀ before decl after, scenario.symbols = before ++ decl :: after → decl.WellFormed (knownPaths before)
  bases : ∀ decl ∈ scenario.symbols, ∀ path ∈ decl.bases, path ∈ knownPaths scenario.symbols
  scopes_ne_nil : scenario.scopes ≠ []
  scopes : ∀ decl ∈ scenario.scopes, decl.WellFormed (knownPaths scenario.symbols)

/-! ### Reading declarations -/

section

variable {known : List String} {added : List (SymbolId × SymbolId)} {d : Declarations}

/-- All words for kinds but the one for aliases stand for a kind by themselves. -/
theorem exists_ofWord?_symbolKind_iff {word : String} (h : word ≠ "alias") :
    (∃ kind, SymbolKind.ofWord? word = some kind) ↔ word ∈ SymbolDecl.kinds := by
  unfold SymbolKind.ofWord?
  split <;> simp_all [SymbolDecl.kinds]

theorem exists_ofWord?_accessibility_iff {word : String} :
    (∃ accessibility, Accessibility.ofWord? word = some accessibility) ↔ word ∈ SymbolDecl.accessibilities := by
  unfold Accessibility.ofWord?
  split <;> simp_all [SymbolDecl.accessibilities]

theorem exists_ofText?_iff {text : String} :
    (∃ problem, WrittenProblem.ofText? text = some problem) ↔ IsProblemText text := by
  constructor
  · rintro ⟨problem, h⟩
    unfold WrittenProblem.ofText? at h
    split at h
    · next word module hsplit =>
      split at h
      · next hword =>
        obtain ⟨-, htext⟩ := splitFirst?_eq_some_iff.1 hsplit
        refine Or.inr (Or.inr ⟨String.ofList module, String.toList_inj.1 ?_⟩)
        rw [htext, ← String.toList_ofList (l := word), hword]
        simp
      · cases h
    · split at h
      · next hbad => exact Or.inl hbad
      · split at h
        · next hunsupported => exact Or.inr (Or.inl hunsupported)
        · cases h
  · rintro (rfl | rfl | ⟨module, rfl⟩)
    · exact ⟨.badMetadata, by decide +kernel⟩
    · exact ⟨.unsupported, by decide +kernel⟩
    · have htext : ("missing-module:" ++ module).toList = "missing-module".toList ++ ':' :: module.toList := by simp
      have hsplit : splitFirst? ':' ("missing-module:" ++ module).toList =
          some ("missing-module".toList, module.toList) := by
        rw [htext, splitFirst?_append (by decide)]
      refine ⟨.missingModule module, ?_⟩
      rw [WrittenProblem.ofText?, hsplit]
      simp

theorem SymbolDecl.exists_declaredAccessibility_iff {decl : SymbolDecl} :
    (∃ accessibility, decl.declaredAccessibility = .ok accessibility) ↔
      ∀ word, decl.accessibility = some word → word ∈ accessibilities := by
  unfold declaredAccessibility
  cases haccess : decl.accessibility with
  | none => simp
  | some word =>
    simp only [Option.some.injEq, forall_eq', ← exists_ofWord?_accessibility_iff]
    cases hread : Accessibility.ofWord? word <;> simp

theorem SymbolDecl.exists_writtenProblem_iff {decl : SymbolDecl} :
    (∃ written, decl.writtenProblem = .ok written) ↔ ∀ text, decl.problem = some text → IsProblemText text := by
  unfold writtenProblem
  cases hproblem : decl.problem with
  | none => simp
  | some text =>
    simp only [Option.some.injEq, forall_eq', ← exists_ofText?_iff]
    cases hread : WrittenProblem.ofText? text <;> simp

theorem SymbolDecl.exists_symbolKind_iff (h : d.LaidOut known added) {decl : SymbolDecl} :
    (∃ kind, decl.symbolKind d = .ok kind) ↔ decl.kind ∈ kinds ∧
      (decl.kind = "alias" → ∃ target ∈ known, decl.target = some target) := by
  unfold symbolKind
  split
  next halias =>
    cases htarget : decl.target with
    | none => simp [halias]
    | some target =>
      have hknown : (∃ s, d.symbolAt target = .ok s) ↔ target ∈ known := h.exists_symbolAt_iff
      cases htargetAt : d.symbolAt target <;> simp_all [Except.map, kinds]
  next halias =>
    rw [and_iff_left fun heq => absurd heq halias, ← exists_ofWord?_symbolKind_iff halias]
    cases hread : SymbolKind.ofWord? decl.kind <;> simp

theorem exists_declare_iff (h : d.LaidOut known added) {decl : SymbolDecl} :
    (∃ d', d.declare decl = .ok d') ↔ decl.WellFormed known := by
  have hcontainer : (∃ container, d.symbolAt (splitPath decl.path).1 = .ok container) ↔
      ∃ container ∈ known, ∃ name, '.' ∉ name.toList ∧ PathInside container name decl.path := by
    simp only [h.exists_symbolAt_iff, ← splitPath_fst_eq_iff, exists_eq_right']
  have hsteps : (∃ d', d.declare decl = .ok d') ↔
      (∃ container, d.symbolAt (splitPath decl.path).1 = .ok container) ∧ (∃ kind, decl.symbolKind d = .ok kind) ∧
        (∃ accessibility, decl.declaredAccessibility = .ok accessibility) ∧
          ∃ written, decl.writtenProblem = .ok written := by
    simp only [Declarations.declare, bind_eq_ok_iff]
    constructor
    · rintro ⟨d', container, hcontainer, kind, hkind, accessibility, haccessibility, written, hwritten, -⟩
      exact ⟨⟨container, hcontainer⟩, ⟨kind, hkind⟩, ⟨accessibility, haccessibility⟩, written, hwritten⟩
    · rintro ⟨⟨container, hcontainer⟩, ⟨kind, hkind⟩, ⟨accessibility, haccessibility⟩, written, hwritten⟩
      exact ⟨_, container, hcontainer, kind, hkind, accessibility, haccessibility, written, hwritten, rfl⟩
  rw [hsteps, hcontainer, SymbolDecl.exists_symbolKind_iff h, SymbolDecl.exists_declaredAccessibility_iff,
    SymbolDecl.exists_writtenProblem_iff]
  constructor
  · rintro ⟨hcontainer, ⟨hkind, htarget⟩, haccessibility, hproblem⟩
    exact ⟨hcontainer, hkind, htarget, haccessibility, hproblem⟩
  · intro hwf
    exact ⟨hwf.container, ⟨hwf.kind, hwf.target⟩, hwf.accessibility, hwf.problem⟩

/-- A list splits at its head or later. -/
theorem forall_split_cons_iff {α : Type} {P : List α → α → Prop} {x : α} {xs : List α} :
    (∀ before y after, x :: xs = before ++ y :: after → P before y) ↔
      P [] x ∧ ∀ before y after, xs = before ++ y :: after → P (x :: before) y := by
  constructor
  · intro h
    exact ⟨h [] x xs rfl, fun before y after hsplit => h (x :: before) y after (by rw [hsplit]; rfl)⟩
  · rintro ⟨hhead, htail⟩ before y after hsplit
    cases before with
    | nil =>
      cases hsplit
      exact hhead
    | cons first before =>
      cases hsplit
      exact htail before y after rfl

theorem exists_foldlM_declare_iff (h : d.LaidOut known added) {symbols : List SymbolDecl} :
    (∃ d', symbols.foldlM Declarations.declare d = .ok d') ↔ ∀ before decl after,
      symbols = before ++ decl :: after → decl.WellFormed (known ++ before.flatMap SymbolDecl.paths) := by
  -- Each declaration adds its paths to what is known, for itself not yet but for all after it.
  induction symbols generalizing d known with
  | nil => simp [pure, Except.pure]
  | cons decl symbols ih =>
    rw [forall_split_cons_iff, List.flatMap_nil, List.append_nil, ← exists_declare_iff h]
    simp only [List.foldlM_cons, bind_eq_ok_iff, List.flatMap_cons, ← List.append_assoc]
    constructor
    · rintro ⟨d', next, hnext, hd'⟩
      exact ⟨⟨next, hnext⟩, (ih (h.declare hnext)).1 ⟨d', hd'⟩⟩
    · rintro ⟨⟨next, hnext⟩, hrest⟩
      obtain ⟨d', hd'⟩ := (ih (h.declare hnext)).2 hrest
      exact ⟨d', next, hnext, hd'⟩

theorem exists_ofSymbols_iff {symbols : List SymbolDecl} : (∃ d, Declarations.ofSymbols symbols = .ok d) ↔
    (∀ before decl after, symbols = before ++ decl :: after → decl.WellFormed (knownPaths before)) ∧
      ∀ decl ∈ symbols, ∀ path ∈ decl.bases, path ∈ knownPaths symbols := by
  have hdeclared : (∃ declared, symbols.foldlM Declarations.declare .initial = .ok declared) ↔
      ∀ before decl after, symbols = before ++ decl :: after → decl.WellFormed (knownPaths before) :=
    exists_foldlM_declare_iff Declarations.laidOut_initial
  rw [← hdeclared]
  simp only [Declarations.ofSymbols_eq_ok_iff]
  constructor
  · rintro ⟨d, declared, hdeclared, hbases, -⟩
    exact ⟨⟨declared, hdeclared⟩, hbases⟩
  · rintro ⟨⟨declared, hdeclared⟩, hbases⟩
    exact ⟨_, declared, hdeclared, hbases, rfl⟩

/-! ### Scopes -/

theorem exists_ownerOf_iff (h : d.LaidOut known added) {decl : ScopeDecl} :
    (∃ owner, d.ownerOf decl = .ok owner) ↔ ∃ path ∈ known, decl.owner = some path := by
  unfold Declarations.ownerOf
  cases howner : decl.owner with
  | none => simp
  | some path => simp [h.exists_symbolAt_iff]

namespace ScopeDecl

variable {decl : ScopeDecl}

theorem wellFormed_iff_of_owned (hkind : decl.kind ∈ ownedKinds) :
    decl.WellFormed known ↔ ∃ path ∈ known, decl.owner = some path := by
  have hothers : decl.kind ≠ "imports" ∧ decl.kind ∉ localKinds := by
    simp only [ownedKinds, List.mem_cons, List.not_mem_nil, or_false] at hkind
    rcases hkind with h | h | h | h <;> rw [h] <;> decide
  exact ⟨fun h => h.owner hkind, fun h => ⟨Or.inl hkind, fun _ => h, fun h => absurd h hothers.1,
    fun h => absurd h hothers.2⟩⟩

theorem wellFormed_iff_of_imports (hkind : decl.kind = "imports") : decl.WellFormed known ↔
    (∀ path ∈ decl.imports, path ∈ known) ∧ ∀ path ∈ decl.aliases, path ∈ known := by
  have hothers : decl.kind ∉ ownedKinds ∧ decl.kind ∉ localKinds := by
    rw [hkind]
    decide
  exact ⟨fun h => h.imported hkind, fun h => ⟨Or.inr (Or.inl hkind), fun h => absurd h hothers.1, fun _ => h,
    fun h => absurd h hothers.2⟩⟩

theorem wellFormed_iff_of_local (hkind : decl.kind ∈ localKinds) : decl.WellFormed known ↔
    (∀ path ∈ decl.locals, path ∈ known) ∧ ∀ path ∈ decl.labels, path ∈ known := by
  have hothers : decl.kind ∉ ownedKinds ∧ decl.kind ≠ "imports" := by
    simp only [localKinds, List.mem_cons, List.not_mem_nil, or_false] at hkind
    rcases hkind with h | h | h <;> rw [h] <;> decide
  exact ⟨fun h => h.bound hkind, fun h => ⟨Or.inr (Or.inr hkind), fun h => absurd h hothers.1,
    fun h => absurd h hothers.2, fun _ => h⟩⟩

end ScopeDecl

theorem exists_two_mapM_iff (h : d.LaidOut known added) {paths others : List String}
    {scope : List SymbolId → List SymbolId → Scope} :
    (∃ built, (do
      let first ← paths.mapM d.symbolAt
      let second ← others.mapM d.symbolAt
      return scope first second : Except ScenarioError Scope) = .ok built) ↔
      (∀ path ∈ paths, path ∈ known) ∧ ∀ path ∈ others, path ∈ known := by
  simp only [← h.exists_symbolAt_iff, ← exists_mapM_eq_ok_iff, bind_eq_ok_iff]
  constructor
  · rintro ⟨built, first, hfirst, second, hsecond, -⟩
    exact ⟨⟨first, hfirst⟩, second, hsecond⟩
  · rintro ⟨⟨first, hfirst⟩, second, hsecond⟩
    exact ⟨_, first, hfirst, second, hsecond, rfl⟩

theorem exists_typeParameterScope_iff (h : d.LaidOut known added) {level : GenericLevel} {decl : ScopeDecl} :
    (∃ scope, d.typeParameterScope level decl = .ok scope) ↔ ∃ path ∈ known, decl.owner = some path := by
  rw [← exists_ownerOf_iff h, Declarations.typeParameterScope]
  cases d.ownerOf decl <;> simp [bind, Except.bind, pure, Except.pure]

/-- A scope is built if and only if it is well-formed. -/
theorem exists_scope_iff (h : d.LaidOut known added) {decl : ScopeDecl} :
    (∃ scope, d.scope decl = .ok scope) ↔ decl.WellFormed known := by
  unfold Declarations.scope
  split
  case h_1 hkind | h_2 hkind =>
    rw [exists_map_eq_ok_iff, exists_ownerOf_iff h, ScopeDecl.wellFormed_iff_of_owned (by rw [hkind]; decide)]
  case h_3 hkind | h_4 hkind =>
    rw [exists_typeParameterScope_iff h, ScopeDecl.wellFormed_iff_of_owned (by rw [hkind]; decide)]
  case h_5 hkind =>
    rw [Declarations.importScope, exists_two_mapM_iff h, ScopeDecl.wellFormed_iff_of_imports hkind]
  case h_6 hkind | h_7 hkind | h_8 hkind =>
    rw [Declarations.localScope, exists_two_mapM_iff h, ScopeDecl.wellFormed_iff_of_local (by rw [hkind]; decide)]
  case h_9 =>
    -- No other word is a kind of scope.
    refine iff_of_false (by simp) fun hwf => ?_
    have hkind := hwf.kind
    simp only [ScopeDecl.ownedKinds, ScopeDecl.localKinds, List.mem_cons, List.not_mem_nil, or_false] at hkind
    simp_all

theorem contains_of_ownerOf (h : d.LaidOut known added) {decl : ScopeDecl} {owner : SymbolId}
    (howner : d.ownerOf decl = .ok owner) : d.builder.table.contains owner = true := by
  unfold Declarations.ownerOf at howner
  split at howner
  · cases howner
  · exact h.contains howner

theorem contains_of_mapM (h : d.LaidOut known added) {paths : List String} {symbols : List SymbolId}
    (hsymbols : paths.mapM d.symbolAt = .ok symbols) : ∀ s ∈ symbols, d.builder.table.contains s = true := by
  intro s hs
  obtain ⟨path, -, hpath⟩ := exists_of_mem_mapM hsymbols hs
  exact h.contains hpath

theorem contains_of_typeParametersOf (h : d.LaidOut known added) (owner : SymbolId) :
    ∀ s ∈ d.typeParametersOf owner, d.builder.table.contains s = true := by
  intro s hs
  unfold Declarations.typeParametersOf at hs
  cases hentry : d.typeParameters.lookup owner with
  | none => simp [hentry] at hs
  | some parameters =>
    obtain ⟨before, after, hsplit, -⟩ := List.lookup_eq_some_iff.1 hentry
    rw [hentry, Option.getD_some] at hs
    refine h.outline.contains_iff.2 (h.typeParameters (owner, parameters) ?_ s hs)
    rw [hsplit]
    exact List.mem_append_right _ List.mem_cons_self

theorem builtFrom_of_typeParameterScope (h : d.LaidOut known added) {level : GenericLevel} {decl : ScopeDecl}
    {scope : Scope} (hscope : d.typeParameterScope level decl = .ok scope) : scope.BuiltFrom d.builder.table := by
  obtain ⟨owner, howner, hscope⟩ := bind_eq_ok_iff.1 hscope
  cases hscope
  exact .typeParameters level owner _ (contains_of_ownerOf h howner) (contains_of_typeParametersOf h owner)

theorem builtFrom_of_importScope (h : d.LaidOut known added) {decl : ScopeDecl} {scope : Scope}
    (hscope : d.importScope decl = .ok scope) : scope.BuiltFrom d.builder.table := by
  obtain ⟨namespaces, hnamespaces, hscope⟩ := bind_eq_ok_iff.1 hscope
  obtain ⟨aliases, haliases, hscope⟩ := bind_eq_ok_iff.1 hscope
  cases hscope
  exact .imports _ _ (contains_of_mapM h hnamespaces) (contains_of_mapM h haliases)

theorem builtFrom_of_localScope (h : d.LaidOut known added) {kind : LocalScopeKind} {decl : ScopeDecl}
    {scope : Scope} (hscope : d.localScope kind decl = .ok scope) : scope.BuiltFrom d.builder.table := by
  obtain ⟨bound, hbound, hscope⟩ := bind_eq_ok_iff.1 hscope
  obtain ⟨labels, hlabels, hscope⟩ := bind_eq_ok_iff.1 hscope
  cases hscope
  exact .locals kind _ _ (contains_of_mapM h hbound) (contains_of_mapM h hlabels)

/-- What is built holds declared symbols only. -/
theorem builtFrom_of_scope (h : d.LaidOut known added) {decl : ScopeDecl} {scope : Scope}
    (hscope : d.scope decl = .ok scope) : scope.BuiltFrom d.builder.table := by
  unfold Declarations.scope at hscope
  split at hscope
  case h_1 =>
    obtain ⟨owner, howner, rfl⟩ := map_eq_ok_iff.1 hscope
    exact .ofNamespace owner (contains_of_ownerOf h howner)
  case h_2 =>
    obtain ⟨owner, howner, rfl⟩ := map_eq_ok_iff.1 hscope
    exact .ofType owner (contains_of_ownerOf h howner)
  case h_3 | h_4 => exact builtFrom_of_typeParameterScope h hscope
  case h_5 => exact builtFrom_of_importScope h hscope
  case h_6 | h_7 | h_8 => exact builtFrom_of_localScope h hscope
  case h_9 => cases hscope

/-! ### Accepted scenarios -/

/-- The innermost scope comes first in a chain and last in a scenario. -/
theorem chain_eq_ok_iff {scopes : List ScopeDecl} {chain : ScopeChain} : d.chain scopes = .ok chain ↔
    scopes ≠ [] ∧ List.Forall₂ (fun decl scope => d.scope decl = .ok scope) scopes chain.reverse := by
  unfold Declarations.chain
  rw [← mapM_eq_ok_iff]
  cases scopes with
  | nil => simp
  | cons decl scopes =>
    rw [if_neg (by simp), map_eq_ok_iff, and_iff_right (List.cons_ne_nil _ _)]
    simp only [List.reverse_eq_iff, exists_eq_right]

theorem exists_chain_iff (h : d.LaidOut known added) {scopes : List ScopeDecl} :
    (∃ chain, d.chain scopes = .ok chain) ↔ scopes ≠ [] ∧ ∀ decl ∈ scopes, decl.WellFormed known := by
  unfold Declarations.chain
  cases scopes with
  | nil => simp
  | cons decl scopes =>
    rw [if_neg (by simp), exists_map_eq_ok_iff, exists_mapM_eq_ok_iff, and_iff_right (List.cons_ne_nil _ _)]
    simp only [exists_scope_iff h]

theorem exists_ofScenario_iff {scenario : Scenario} :
    (∃ f, Fixture.ofScenario scenario = .ok f) ↔ scenario.WellFormed := by
  simp only [Fixture.ofScenario_eq_ok_iff]
  constructor
  · rintro ⟨f, hdeclarations, hchain⟩
    obtain ⟨hsymbols, hbases⟩ := exists_ofSymbols_iff.1 ⟨_, hdeclarations⟩
    obtain ⟨hne, hscopes⟩ := (exists_chain_iff (Declarations.laidOut_of_ofSymbols hdeclarations)).1 ⟨_, hchain⟩
    exact ⟨hsymbols, hbases, hne, hscopes⟩
  · intro hwf
    obtain ⟨d, hd⟩ := exists_ofSymbols_iff.2 ⟨hwf.symbols, hwf.bases⟩
    obtain ⟨chain, hchain⟩ :=
      (exists_chain_iff (Declarations.laidOut_of_ofSymbols hd)).2 ⟨hwf.scopes_ne_nil, hwf.scopes⟩
    exact ⟨⟨d, chain⟩, hd, hchain⟩

theorem exists_request_iff {f : Fixture} {lookup : LookupDecl} {options : LookupOptions} :
    (∃ request, f.request lookup = .ok request ∧ request.options = options) ↔ lookup.lookupOptions = .ok options ∧
      ∀ path, lookup.within = some path → ∃ s, f.symbolAt path = .ok s := by
  have hwithin : (∃ within, lookup.within.mapM f.symbolAt = .ok within) ↔
      ∀ path, lookup.within = some path → ∃ s, f.symbolAt path = .ok s := by
    cases lookup.within with
    | none => simp [pure, Except.pure]
    | some path => cases hpath : f.symbolAt path <;> simp [hpath, Functor.map, Except.map]
  rw [← hwithin]
  simp only [Fixture.request, bind_eq_ok_iff]
  constructor
  · rintro ⟨request, ⟨options, hoptions, within, hwithin, hrequest⟩, rfl⟩
    cases hrequest
    exact ⟨hoptions, within, hwithin⟩
  · rintro ⟨hoptions, within, hwithin⟩
    exact ⟨_, ⟨options, hoptions, within, hwithin, rfl⟩, rfl⟩

/-- A lookup has an outcome if its options can be read and are valid and the type it is made in is known. -/
theorem exists_run_iff {f : Fixture} {lookup : LookupDecl} : (∃ outcome, f.run lookup = .ok outcome) ↔
    (∃ options, lookup.lookupOptions = .ok options ∧ options.isValid = true) ∧
      ∀ path, lookup.within = some path → ∃ s, f.symbolAt path = .ok s := by
  have hlookup : ∀ request : LookupRequest, (∃ result, (f.resolver.lookup f.chain request false ∅).1 = .ok result) ↔
      request.options.isValid = true := by
    intro request
    cases hvalid : request.options.isValid with
    | false => simp [Resolver.lookup, hvalid]
    | true =>
      obtain ⟨result, sink, hfound⟩ := f.resolver.exists_lookup_eq_ok f.chain hvalid ∅
      exact iff_of_true ⟨result, by rw [hfound]⟩ rfl
  have hrun : (∃ outcome, f.run lookup = .ok outcome) ↔
      ∃ request, f.request lookup = .ok request ∧ request.options.isValid = true := by
    unfold Fixture.run
    simp only [← hlookup]
    cases hrequest : f.request lookup with
    | error e => simp [Except.mapError, bind, Except.bind]
    | ok request =>
      cases hfound : (f.resolver.lookup f.chain request false ∅).1 <;>
        simp [Except.mapError, bind, Except.bind, pure, Except.pure, hfound]
  rw [hrun]
  constructor
  · rintro ⟨request, hrequest, hvalid⟩
    obtain ⟨hoptions, hwithin⟩ := exists_request_iff.1 ⟨request, hrequest, rfl⟩
    exact ⟨⟨_, hoptions, hvalid⟩, hwithin⟩
  · rintro ⟨⟨options, hoptions, hvalid⟩, hwithin⟩
    obtain ⟨request, hrequest, rfl⟩ := exists_request_iff.2 ⟨hoptions, hwithin⟩
    exact ⟨request, hrequest, hvalid⟩

end

/-- The chain has a scope for each scope of the scenario, the innermost one first. The scopes and the table
hold declared symbols under interned names only, and just the known paths denote such symbols. -/
structure Fixture.BuiltFrom (scenario : Scenario) (f : Fixture) : Prop where
  chain : List.Forall₂ (fun decl scope => f.declarations.scope decl = .ok scope) scenario.scopes f.chain.reverse
  scopes : ∀ scope ∈ f.chain, scope.BuiltFrom f.table
  builder : ∃ steps, f.declarations.builder = (Builder.start .empty).declareAll steps ∧
    (Builder.start .empty).eachStep Builder.knowsReferences steps = true ∧
    (Builder.start .empty).eachStep Builder.knowsName steps = true
  known : ∀ path, (∃ s, f.symbolAt path = .ok s) ↔ path ∈ knownPaths scenario.symbols
  contains : ∀ path s, f.symbolAt path = .ok s → f.table.contains s = true

theorem Fixture.builtFrom_of_ofScenario {scenario : Scenario} {f : Fixture} (h : ofScenario scenario = .ok f) :
    f.BuiltFrom scenario := by
  have hlaid := laidOut_of_ofScenario h
  obtain ⟨-, hchain⟩ := chain_eq_ok_iff.1 (ofScenario_eq_ok_iff.1 h).2
  refine ⟨hchain, fun scope hscope => ?_, hlaid.outline.exists_steps, fun path => hlaid.exists_symbolAt_iff,
    fun path s => hlaid.contains⟩
  obtain ⟨decl, -, hdecl⟩ := exists_of_mem_mapM (mapM_eq_ok_iff.2 hchain) (List.mem_reverse.2 hscope)
  exact builtFrom_of_scope hlaid hdecl

/-- A scenario is accepted if and only if it is well-formed. What is built for it then holds declared symbols
only, and a lookup fails only if an option is unknown, the options contradict each other, or nothing is
declared at the path of the type it is made in. -/
theorem accepted_iff_wellFormed (scenario : Scenario) :
    ((∃ f, Fixture.ofScenario scenario = .ok f) ↔ scenario.WellFormed) ∧
      ∀ f, Fixture.ofScenario scenario = .ok f → f.BuiltFrom scenario ∧
        ∀ lookup : LookupDecl, (∃ outcome, f.run lookup = .ok outcome) ↔
          (∃ options, lookup.lookupOptions = .ok options ∧ options.isValid = true) ∧
            ∀ path, lookup.within = some path → path ∈ knownPaths scenario.symbols := by
  refine ⟨exists_ofScenario_iff, fun f hf => ?_⟩
  have hbuilt := Fixture.builtFrom_of_ofScenario hf
  refine ⟨hbuilt, fun lookup => ?_⟩
  simp only [exists_run_iff, hbuilt.known]

/-- A base type is declared after the type that lists it, and an alias names what was declared before. -/
def importedBox : Scenario where
  symbols := [
    { path := "App", kind := "namespace" },
    { path := "App.Box", kind := "class", typeParameters := ["Item"], bases := ["App.Base"] },
    { path := "App.Base", kind := "class", accessibility := some "internal", problem := some "missing-module:core" },
    { path := "Short", kind := "alias", target := some "App" }]
  scopes := [
    { kind := "imports", imports := ["App"], aliases := ["Short"] },
    { kind := "type", owner := some "App.Box" },
    { kind := "type-parameters", owner := some "App.Box" },
    { kind := "block" }]

theorem accepted_iff_wellFormed_importedBox : importedBox.WellFormed ∧
    ∃ f, Fixture.ofScenario importedBox = .ok f ∧ f.chain.length = 4 ∧ f.BuiltFrom importedBox ∧
      ∃ outcome, f.run { name := "Item", options := ["EXACT_ARITY"], within := some "App.Box" } = .ok outcome := by
  obtain ⟨haccepted, hruns⟩ := accepted_iff_wellFormed importedBox
  have hlength : (Fixture.ofScenario importedBox).map (fun f => f.chain.length) = .ok 4 := by decide +kernel
  obtain ⟨f, hf, hlength⟩ := map_eq_ok_iff.1 hlength
  obtain ⟨hbuilt, hrun⟩ := hruns f hf
  refine ⟨haccepted.1 ⟨f, hf⟩, f, hf, hlength, hbuilt, (hrun _).2 ⟨?_, ?_⟩⟩
  · exact ⟨_, rfl, by decide⟩
  · rintro path hpath
    cases hpath
    decide +kernel

end NameResolution
