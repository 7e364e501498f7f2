import NameResolution.Proofs.Access.Rules
import NameResolution.Proofs.Chain.Asking

/-! Inherited members. The search that finds a member among the base types of a type and the
walk that allows protected access follow the same base types, so a member that derived types
may use is never turned down inside the type that inherits it. -/

namespace NameResolution

/-- Derived types may use a member of this accessibility, in whatever module they are. -/
def Accessibility.isOpenToDerived : Accessibility → Bool
  | publicAccess | protectedAccess | protectedInternal => true
  | internalAccess | privateProtected | privateAccess => false

namespace SymbolTable

variable {t : SymbolTable} {context : LookupContext} {s ty owner place : SymbolId}

/-! ### Permission -/

/-- The symbol and every type around it are public. -/
def isPublicThroughout (t : SymbolTable) (s : SymbolId) : Bool :=
  (s :: t.enclosingTypes s).all fun x => (t.data x).accessibility == .publicAccess

theorem isPermitted_of_public (h : (t.data s).accessibility = .publicAccess) (context : LookupContext) :
    t.isPermitted s context = true :=
  isPermitted_iff.2 (.everywhere h)

theorem isAccessible_of_public (h : t.isPublicThroughout s = true) (context : LookupContext) :
    t.isAccessible s context = true := by
  rw [isAccessible, List.all_eq_true]
  intro x hx
  exact isPermitted_of_public (beq_iff_eq.1 (List.all_eq_true.1 h x hx)) context

/-- A place nested in a type lies in the family of everything the type derives from. -/
theorem isWithinFamily_of_isNestedIn {m : ModuleId} (hplace : t.isNestedIn place ty = true)
    (htype : (t.data ty).isType = true) (howner : owner = ty ∨ t.derivesFrom ty owner = true) :
    LookupContext.isWithinFamily ⟨m, some place⟩ t owner = true := by
  have haround : ty ∈ place :: t.enclosingTypes place :=
    cons_enclosingTypes_subset htype hplace List.mem_cons_self
  rw [LookupContext.isWithinFamily, List.any_eq_true]
  refine ⟨ty, haround, ?_⟩
  rw [Bool.or_eq_true, beq_iff_eq]
  exact howner.imp_left Eq.symm

theorem isPermitted_of_isWithinFamily (howner : t.containingType s = some owner)
    (hopen : (t.data s).accessibility.isOpenToDerived = true)
    (hfamily : context.isWithinFamily t owner = true) : t.isPermitted s context = true := by
  rw [isPermitted_iff]
  cases haccess : (t.data s).accessibility with
  | publicAccess => exact .everywhere haccess
  | protectedAccess => exact .inFamily howner haccess hfamily
  | protectedInternal => exact .inModuleOrFamily howner haccess (Or.inr hfamily)
  | internalAccess | privateProtected | privateAccess =>
    rw [haccess] at hopen
    cases hopen

/-! ### Inherited members -/

theorem isType_of_path (hbases : ∀ x, ∀ b ∈ t.bases x, (t.data b).isType = true)
    (htype : (t.data ty).isType = true)
    (hpath : Relation.ReflTransGen (fun a b => b ∈ t.bases a) ty owner) : (t.data owner).isType = true := by
  cases hpath with
  | refl => exact htype
  | tail _ hbase => exact hbases _ owner hbase

/-- The path of base types along which a member is found is one along which the walk for
protected access goes. -/
theorem isAccessible_of_path (hbases : ∀ x, ∀ b ∈ t.bases x, (t.data b).isType = true)
    (htype : (t.data ty).isType = true) (hplace : t.isNestedIn place ty = true)
    (hpath : Relation.ReflTransGen (fun a b => b ∈ t.bases a) ty owner)
    (hcontainer : (t.data s).container = some owner)
    (hopen : (t.data s).accessibility.isOpenToDerived = true)
    (hpublic : t.isPublicThroughout owner = true) (m : ModuleId) :
    t.isAccessible s ⟨m, some place⟩ = true := by
  have hownerType : (t.data owner).isType = true := isType_of_path hbases htype hpath
  have howner : t.containingType s = some owner := containingType_of_container hcontainer hownerType
  have hderives : owner = ty ∨ t.derivesFrom ty owner = true := by
    rw [derivesFrom_iff]
    exact Relation.reflTransGen_iff_eq_or_transGen.1 hpath
  have hfamily := @isWithinFamily_of_isNestedIn t ty owner place m hplace htype hderives
  rw [isAccessible_eq_and, howner, Option.all_some, Bool.and_eq_true]
  exact ⟨isPermitted_of_isWithinFamily howner hopen hfamily, isAccessible_of_public hpublic _⟩

end SymbolTable

/-! ### Lookups -/

/-- Without options and type arguments only the accessibility of a candidate counts. -/
theorem ScopeQuery.check_of_no_options {t : SymbolTable} {query : ScopeQuery} (hoptions : query.options = .empty)
    (harity : query.arity = 0) (s : SymbolId) : query.check t s =
      if t.isAccessible s query.context then .viable else .notViable .inaccessible := by
  have hkind : query.kindMismatch? (t.data s) = none := by
    unfold kindMismatch?
    rw [hoptions]
    rfl
  have hinstance : query.instanceMismatch (t.data s) = false := by
    unfold instanceMismatch
    rw [hoptions]
    rfl
  have hmatches : query.arityMatches (t.data s) = true := by
    unfold arityMatches
    rw [hoptions, harity]
    rfl
  have hinvocable : query.options.mustBeInvocableIfMember = false := by
    rw [hoptions]
    rfl
  unfold check
  simp only [hkind, hinstance, hmatches, hinvocable]
  cases t.isAccessible s query.context <;> rfl

namespace Resolver

/-- A lookup in a type alone finds what the search of the type finds, and turns down nothing that
its query accepts. -/
theorem exists_lookupInType_eq_ok (r : Resolver) (ty : SymbolId) {request : LookupRequest}
    (hvalid : request.options.isValid = true) (hadmits : (Scope.ofType ty).admits request.options = true)
    (sink : Diagnostics) : ∃ found sink', r.lookupInType ty request false sink = (.ok found, sink') ∧
      (∀ s, s ∈ found.symbols ∨ s ∈ found.rejected ↔
        ∃ name, r.names.find? request.name = some name ∧ s ∈ r.table.hierarchyCandidates name ty ∅) ∧
      ∀ s ∈ found.rejected, ∃ name, (request.query name).check r.table s ≠ .viable := by
  cases hname : r.names.find? request.name with
  | none =>
    refine ⟨.empty, sink, lookup_of_find?_eq_none hvalid hname _ sink, fun s => ?_, fun s hs => ?_⟩
    · simp [LookupResult.empty, LookupResult.rejected]
    · cases hs
  | some name =>
    have hcandidates : ScopeChain.candidates r.table (request.query name) [.ofType ty] =
        r.table.hierarchyCandidates name ty ∅ := ScopeChain.candidates_singleton hadmits
    have hsorted := LookupResult.classifies_ofCandidates r.table (request.query name)
      (r.table.hierarchyCandidates name ty ∅)
    rw [lookupInType, lookup_eq hvalid hname, hcandidates]
    refine ⟨_, _, rfl, fun s => ?_, fun s hs => ⟨name, ((hsorted.mem_rejected_iff s).1 hs).2⟩⟩
    rw [LookupResult.mem_ofCandidates_iff]
    simp

/-- A reference from inside a type may use every public, protected or protected internal member
that the type inherits, from whatever module, as long as the type that declares the member is
public with everything around it. Base types may form cycles. -/
theorem inherited_members_accessible (names : Interner) (script : Script names)
    (r : Resolver) (htable : r.table = script.table)
    (hbases : ∀ x, ∀ b ∈ r.table.bases x, (r.table.data b).isType = true)
    (ty place : SymbolId) (htype : (r.table.data ty).isType = true)
    (hplace : r.table.isNestedIn place ty = true) (m : ModuleId) (text : String) (diagnose : Bool)
    (sink : Diagnostics) :
    let request : LookupRequest := { name := text, context := ⟨m, some place⟩, diagnose }
    ∃ found sink', r.lookupInType ty request false sink = (.ok found, sink') ∧
      (∀ s, s ∈ found.symbols ∨ s ∈ found.rejected ↔
        ∃ name owner, r.names.find? text = some name ∧ s ∈ r.table.membersNamed owner name ∧
          Relation.ReflTransGen (fun a b => r.table.membersNamed a name = [] ∧ b ∈ r.table.bases a) ty owner) ∧
      ∀ s owner, s ∈ found.symbols ∨ s ∈ found.rejected → (r.table.data s).container = some owner →
        (r.table.data s).accessibility.isOpenToDerived = true → r.table.isPublicThroughout owner = true →
          s ∈ found.symbols ∧ s ∉ found.rejected := by
  intro request
  have howned : r.table.MembersOwned := htable ▸ SymbolTable.membersOwned_declareAll names script.steps
  obtain ⟨found, sink', hlookup, hfound, hrejected⟩ := @exists_lookupInType_eq_ok r ty request rfl rfl sink
  refine ⟨found, sink', hlookup, fun s => ?_, fun s owner hs hcontainer hopen hpublic => ?_⟩
  · rw [hfound]
    simp only [SymbolTable.mem_hierarchyCandidates_iff]
    constructor
    · rintro ⟨name, hname, owner, hpath, hs⟩
      exact ⟨name, owner, hname, hs, hpath⟩
    · rintro ⟨name, owner, hname, hs, hpath⟩
      exact ⟨name, hname, owner, hpath, hs⟩
  · obtain ⟨name, -, hcandidate⟩ := (hfound s).1 hs
    obtain ⟨owner', hpath, hmember⟩ := SymbolTable.mem_hierarchyCandidates_iff.1 hcandidate
    obtain rfl : owner' = owner := Option.some.inj ((howned.container_eq hmember).symm.trans hcontainer)
    have haccess := SymbolTable.isAccessible_of_path hbases htype hplace (hpath.lift id fun a b hab => hab.2)
      hcontainer hopen hpublic m
    have hviable : ∀ name, (request.query name).check r.table s = .viable := by
      intro name
      rw [ScopeQuery.check_of_no_options rfl rfl]
      exact if_pos haccess
    have hkept : s ∉ found.rejected := by
      intro hs
      obtain ⟨name, hturned⟩ := hrejected s hs
      exact hturned (hviable name)
    exact ⟨hs.resolve_right hkept, hkept⟩

/-- Types 1 and 2 are bases of each other in two modules. Type 1 has a protected field 3, and
type 4 is nested in type 2. -/
def protectedFieldOnCycle : Script .empty where
  steps := [.symbol { name := ⟨1⟩, kind := .typeDecl .classType, container := some ⟨0⟩ },
    .symbol { name := ⟨2⟩, kind := .typeDecl .classType, container := some ⟨0⟩, module := ⟨1⟩ },
    .symbol { name := ⟨3⟩, kind := .field, accessibility := .protectedAccess, container := some ⟨1⟩ },
    .symbol { name := ⟨4⟩, kind := .typeDecl .classType, container := some ⟨2⟩, module := ⟨1⟩ },
    .base ⟨1⟩ ⟨2⟩, .base ⟨2⟩ ⟨1⟩]
  knowsContainers := by decide +kernel

/-- The field is inherited along a cycle and used from inside a nested type. -/
theorem inherited_members_accessible_protectedFieldOnCycle :
    let r : Resolver := {
      names := ⟨.ofList ["", "Base", "Derived", "field", "Inner"]⟩
      table := protectedFieldOnCycle.table }
    let request : LookupRequest := { name := "field", context := ⟨⟨1⟩, some ⟨4⟩⟩ }
    (∀ x, ∀ b ∈ r.table.bases x, (r.table.data b).isType = true) ∧
      (r.table.data ⟨2⟩).isType = true ∧ r.table.isNestedIn ⟨4⟩ ⟨2⟩ = true ∧
      ∃ found sink', r.lookupInType ⟨2⟩ request false ∅ = (.ok found, sink') ∧
        ⟨3⟩ ∈ found.symbols ∧ ⟨3⟩ ∉ found.rejected := by
  intro r request
  have hbases : ∀ x, ∀ b ∈ r.table.bases x, (r.table.data b).isType = true := by
    intro x b hb
    by_cases hx : x.index < r.table.size
    · have hall : ∀ x ∈ r.table.ids, ∀ b ∈ r.table.bases x, (r.table.data b).isType = true := by
        decide +kernel
      exact hall x (SymbolTable.mem_ids.2 hx) b hb
    · rw [SymbolTable.bases_eq_nil_of_size_le (Nat.le_of_not_lt hx)] at hb
      cases hb
  have htype : (r.table.data ⟨2⟩).isType = true := by decide +kernel
  have hplace : r.table.isNestedIn ⟨4⟩ ⟨2⟩ = true := by decide +kernel
  obtain ⟨found, sink', hlookup, hfound, husable⟩ := inherited_members_accessible .empty protectedFieldOnCycle
    r rfl hbases ⟨2⟩ ⟨4⟩ htype hplace ⟨1⟩ "field" true ∅
  have hname : r.names.find? "field" = some ⟨3⟩ := Interner.find?_eq_some_iff.2 rfl
  have hmember : (⟨3⟩ : SymbolId) ∈ found.symbols ∨ ⟨3⟩ ∈ found.rejected :=
    (hfound ⟨3⟩).2 ⟨⟨3⟩, ⟨1⟩, hname, by decide +kernel, .single (by decide +kernel)⟩
  exact ⟨hbases, htype, hplace, found, sink', hlookup,
    husable ⟨3⟩ ⟨1⟩ hmember (by decide +kernel) (by decide +kernel) (by decide +kernel)⟩

end Resolver

end NameResolution
