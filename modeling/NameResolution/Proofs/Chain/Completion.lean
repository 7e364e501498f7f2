import NameResolution.Proofs.Chain.Levels

/-! Completion. The names that are listed as visible along a chain are exactly those whose
lookup finds something. A list of names follows all base types of a type while a search
stops at the first types that declare the name, so the two meet in the first declaring type
of a path. -/

namespace NameResolution

variable {t : SymbolTable} {query : ScopeQuery}

/-! ### Types -/

/-- A path to a type that declares a name meets the first such type without passing
through another one. -/
theorem SymbolTable.exists_first_declaring {name : NameId} {ty x : SymbolId}
    (hpath : Relation.ReflTransGen (fun a b => b ∈ t.bases a) ty x) (hx : t.membersNamed x name ≠ []) :
    ∃ y, t.membersNamed y name ≠ [] ∧
      Relation.ReflTransGen (fun a b => t.membersNamed a name = [] ∧ b ∈ t.bases a) ty y := by
  induction hpath using Relation.ReflTransGen.head_induction_on with
  | refl => exact ⟨x, hx, .refl⟩
  | @head a b hbase _ ih =>
    by_cases ha : t.membersNamed a name = []
    · obtain ⟨y, hy, hrest⟩ := ih
      exact ⟨y, hy, .head ⟨ha, hbase⟩ hrest⟩
    · exact ⟨a, ha, .refl⟩

theorem SymbolTable.mem_withBases_iff {ty x : SymbolId} :
    x ∈ t.withBases ty ↔ Relation.ReflTransGen (fun a b => b ∈ t.bases a) ty x := by
  have hstep : t.StepsTo (fun _ => true) [] = fun a b => b ∈ t.bases a := by
    funext a b
    simp [StepsTo, followed]
  rw [withBases, mem_walkBases_iff, hstep]
  simp

theorem SymbolTable.hierarchyCandidates_ne_nil_iff {name : NameId} {ty : SymbolId} :
    t.hierarchyCandidates name ty ∅ ≠ [] ↔ ∃ x ∈ t.withBases ty, t.membersNamed x name ≠ [] := by
  have hempty : ∀ x : SymbolId, x ∉ (∅ : BaseStack) := fun x => List.not_mem_nil
  rw [Ne, hierarchyCandidates_eq_nil_iff]
  push Not
  constructor
  · rintro ⟨x, hx, hmembers⟩
    have hpath := (mem_searchOrder_iff (hempty ty)).1 hx
    exact ⟨x, mem_withBases_iff.2 (hpath.lift id fun a b hab => hab.2.1), hmembers⟩
  · rintro ⟨x, hx, hmembers⟩
    obtain ⟨y, hy, hpath⟩ := exists_first_declaring (mem_withBases_iff.1 hx) hmembers
    exact ⟨y, (mem_searchOrder_iff (hempty ty)).2
      (hpath.lift id fun a b hab => ⟨hab.1, hab.2, hempty b⟩), hy⟩

/-! ### One scope -/

theorem ImportScope.mem_typeNames_iff {directives : ImportScope} {name : NameId} :
    name ∈ directives.typeNames t ↔ directives.types t name ≠ [] := by
  rw [typeNames, types, Ne, List.flatMap_eq_nil_iff, List.mem_flatMap]
  push Not
  refine exists_congr fun container => and_congr_right fun _ => ?_
  rw [List.mem_filter, ← OrderedSet.mem_def, NameTable.mem_names, List.any_eq_true]
  constructor
  · rintro ⟨-, m, hm, htype⟩
    exact List.ne_nil_of_mem (List.mem_filter.2 ⟨hm, htype⟩)
  · intro h
    obtain ⟨m, hmem⟩ := List.exists_mem_of_ne_nil _ h
    obtain ⟨hm, htype⟩ := List.mem_filter.1 hmem
    exact ⟨List.ne_nil_of_mem hm, m, hm, htype⟩

/-- A scope lists a name exactly if it admits the options and has a candidate of the name. -/
theorem Scope.mem_names_iff {scope : Scope} :
    query.name ∈ scope.names t query.options ↔ scope.decides t query = true := by
  rw [decides_iff]
  unfold names
  cases hadmits : scope.admits query.options with
  | false => simp
  | true =>
    rw [if_pos rfl]
    simp only [true_and]
    cases scope with
    | ofNamespace container => exact NameTable.mem_names
    | ofImports directives =>
      simp only [candidates, ImportScope.candidates, List.mem_append, ← OrderedSet.mem_def, NameTable.mem_names]
      by_cases haliases : directives.aliases.get query.name = []
      · cases haliasesOnly : query.options.namespaceAliasesOnly with
        | true => simp [haliases]
        | false => simp [haliases, ImportScope.mem_typeNames_iff]
      · simp [haliases]
    | ofType ty =>
      simp only [candidates, List.mem_flatMap, ← OrderedSet.mem_def, NameTable.mem_names]
      exact SymbolTable.hierarchyCandidates_ne_nil_iff.symm
    | ofTypeParameters p => exact NameTable.mem_names
    | ofLocals l => exact NameTable.mem_names

/-! ### Chains -/

theorem ScopeChain.mem_visibleNames_iff {chain : ScopeChain} :
    query.name ∈ chain.visibleNames t query.options ↔ chain.candidates t query ≠ [] := by
  rw [visibleNames, OrderedSet.mem_ofList, List.mem_flatMap, candidates_ne_nil_iff]
  exact exists_congr fun x => and_congr_right fun _ => Scope.mem_names_iff

/-- A name is listed as visible exactly if a lookup of it finds something, whatever the
arity and the place it is used at. No name is listed twice, and those of a scope come
before those that only scopes further out have. -/
theorem Resolver.visibleNames_agree_with_lookup (r : Resolver) (chain : ScopeChain)
    (options : LookupOptions) (hvalid : options.isValid = true) :
    (∀ (name : NameId) (text : String), r.names.text? name = some text →
      ∀ (arity : Nat) (context : LookupContext) (diagnose : Bool) (sink : Diagnostics),
        name ∈ chain.visibleNames r.table options ↔
          ∃ result, (r.lookup chain ⟨text, arity, options, context, diagnose⟩ false sink).1 = .ok result ∧
            result.isClear = false) ∧
    (chain.visibleNames r.table options).toList.Nodup ∧
    (∀ (inner : ScopeChain) (scope : Scope) (outer : ScopeChain) (a b : NameId),
      chain = inner ++ scope :: outer → a ∈ scope.names r.table options →
        b ∈ chain.visibleNames r.table options →
          (∀ x ∈ inner ++ [scope], b ∉ x.names r.table options) →
            [a, b].Sublist (chain.visibleNames r.table options).toList) := by
  refine ⟨fun name text htext arity context diagnose sink => ?_, OrderedSet.nodup _,
    fun inner scope outer a b hchain ha hb hfurther => ?_⟩
  · let request : LookupRequest := ⟨text, arity, options, context, diagnose⟩
    have hname : r.names.find? request.name = some name := Interner.find?_eq_some_iff.2 htext
    have hvisible : name ∈ chain.visibleNames r.table options ↔
        chain.candidates r.table (request.query name) ≠ [] :=
      @ScopeChain.mem_visibleNames_iff r.table (request.query name) chain
    rw [hvisible, @lookup_eq r request name hvalid hname chain sink]
    simp only [Except.ok.injEq, exists_eq_left', ← Bool.not_eq_true, LookupResult.isClear_ofCandidates_iff]
  · have hsplit : chain = (inner ++ [scope]) ++ outer := by rw [hchain, List.append_assoc]; rfl
    rw [ScopeChain.visibleNames, hsplit, List.flatMap_append] at hb ⊢
    have hnotNear : b ∉ (inner ++ [scope]).flatMap (Scope.names r.table options) := by
      rw [List.mem_flatMap]
      rintro ⟨x, hx, hbx⟩
      exact hfurther x hx hbx
    have hnear : a ∈ (inner ++ [scope]).flatMap (Scope.names r.table options) :=
      List.mem_flatMap.2 ⟨scope, List.mem_append_right _ List.mem_cons_self, ha⟩
    have hfar : b ∈ outer.flatMap (Scope.names r.table options) :=
      (List.mem_append.1 (OrderedSet.mem_ofList.1 hb)).resolve_left hnotNear
    exact OrderedSet.pair_sublist_toList_ofList hnear hfar hnotNear

/-- Types 1 and 2 are bases of each other, and symbol 3 is a private field of type 2. -/
def fieldOfCyclicBase : Resolver where
  names := ⟨.ofList ["", "x", "y"]⟩
  table := ((Builder.start .empty).declareAll
    [.symbol { name := ⟨0⟩, kind := .typeDecl .classType, container := some ⟨0⟩ },
      .symbol { name := ⟨0⟩, kind := .typeDecl .classType, container := some ⟨0⟩ },
      .symbol { name := ⟨1⟩, kind := .field, accessibility := .privateAccess, container := some ⟨2⟩ },
      .symbol { name := ⟨2⟩, kind := .localVariable, container := some ⟨1⟩ },
      .base ⟨1⟩ ⟨2⟩, .base ⟨2⟩ ⟨1⟩]).table

theorem visibleNames_agree_with_lookup_inheritedField :
    let r := fieldOfCyclicBase
    let block : Scope := .ofLocals { kind := .block, locals := (∅ : NameTable).insert ⟨2⟩ ⟨4⟩ }
    let visible := ScopeChain.visibleNames r.table .empty [.ofType ⟨1⟩, block]
    LookupOptions.empty.isValid = true ∧ r.names.text? ⟨1⟩ = some "x" ∧ r.names.text? ⟨2⟩ = some "y" ∧
      (⟨1⟩ : NameId) ∈ visible ∧ ([⟨1⟩, ⟨2⟩] : List NameId).Sublist visible.toList := by
  intro r block visible
  obtain ⟨hlisted, -, horder⟩ := Resolver.visibleNames_agree_with_lookup r [.ofType ⟨1⟩, block] .empty
    (by decide)
  have hx : (⟨1⟩ : NameId) ∈ visible := by
    apply (hlisted ⟨1⟩ "x" rfl 0 {} true ∅).2
    exact ⟨⟨.notViable, [], [⟨⟨3⟩, some .inaccessible⟩]⟩, by decide +kernel, rfl⟩
  have hy : (⟨2⟩ : NameId) ∈ visible := by
    apply (hlisted ⟨2⟩ "y" rfl 0 {} true ∅).2
    exact ⟨⟨.viable, [⟨4⟩], []⟩, by decide +kernel, rfl⟩
  have hnames := fun name =>
    @Scope.mem_names_iff r.table ⟨name, 0, .empty, {}, true⟩ (.ofType ⟨1⟩)
  refine ⟨by decide, rfl, rfl, hx, horder [] (.ofType ⟨1⟩) [block] ⟨1⟩ ⟨2⟩ rfl ?_ hy ?_⟩
  · exact (hnames ⟨1⟩).2 (by decide +kernel)
  · intro x hx
    rw [List.mem_singleton.1 hx]
    exact fun h => absurd ((hnames ⟨2⟩).1 h) (by decide +kernel)

end NameResolution
