import NameResolution.Lookup.Viability
import NameResolution.Proofs.Inheritance.Derivation
import NameResolution.Proofs.Tables.Nesting

/-! Runs of the check of a candidate. The check goes from the candidate outwards through the types
around it and, where access is private or protected, from the place of the reference outwards as well,
through base types too. A run follows all of these walks step by step and nothing bounds their length,
so that a check has a run only if every walk on the way comes to an end. -/

namespace NameResolution

namespace SymbolTable

variable {t : SymbolTable} {s ty base owner outer place : SymbolId} {found : Option SymbolId} {answer : Bool}

/-! ### Containing types -/

/-- The walk from a symbol to its containing type, which leaves the outermost symbol if there is none. -/
def ContainingTypeRun (t : SymbolTable) (s : SymbolId) (found : Option SymbolId) : Prop :=
  t.contains s = true ∧ t.WalkOut (fun c => (t.data c).isType) (t.data s).container found

theorem containingTypeRun_iff (hs : t.contains s = true) :
    t.ContainingTypeRun s found ↔ found = t.containingType s := by
  rw [ContainingTypeRun, walkOut_iff_containingType hs, and_iff_right hs]

theorem ContainingTypeRun.eq (h : t.ContainingTypeRun s found) : found = t.containingType s :=
  (containingTypeRun_iff h.1).1 h

theorem mem_containers_of_containingType (howner : t.containingType s = some owner) : owner ∈ t.containers s :=
  List.mem_of_find?_eq_some howner

theorem contains_containingType (hs : t.contains s = true) (howner : t.containingType s = some owner) :
    t.contains owner = true :=
  contains_of_mem_containers hs (mem_containers_of_containingType howner)

/-- A containing type is declared before what it encloses, so that they come to an end. -/
theorem containingType_induction {motive : SymbolId → Prop}
    (step : ∀ s, (∀ owner, t.containingType s = some owner → motive owner) → motive s) (s : SymbolId) :
    motive s := by
  induction hindex : s.index using Nat.strong_induction_on generalizing s with
  | _ n ih =>
    apply step
    intro owner howner
    have hearlier := index_lt_of_mem_containers (mem_containers_of_containingType howner)
    exact ih owner.index (hindex ▸ hearlier) owner rfl

/-! ### Nesting and derivation -/

/-- The walk from a place, if there is one, to the symbol that it may be nested in. -/
def NestedRun (t : SymbolTable) (place? : Option SymbolId) (outer : SymbolId) (answer : Bool) : Prop :=
  ∃ found, t.WalkOut (· == outer) place? found ∧ answer = found.isSome

theorem nestedRun_none_iff : t.NestedRun none outer answer ↔ answer = false := by
  constructor
  · rintro ⟨_, ⟨⟩, hanswer⟩
    exact hanswer
  · exact fun hanswer => ⟨none, .nowhere, hanswer⟩

theorem nestedRun_some_iff (hplace : t.contains place = true) :
    t.NestedRun (some place) outer answer ↔ answer = t.isNestedIn place outer := by
  simp only [NestedRun, walkOut_iff_isNestedIn hplace, exists_eq_left]
  cases t.isNestedIn place outer <;> rfl

/-- The search for a base type among the types that are pending. A type is expanded the first time it
comes up. -/
inductive DerivesRun (t : SymbolTable) (base : SymbolId) : List SymbolId → List SymbolId → Bool → Prop
  | exhausted {expanded : List SymbolId} : DerivesRun t base [] expanded false
  | found {rest expanded : List SymbolId} : DerivesRun t base (base :: rest) expanded true
  | again {ty : SymbolId} {rest expanded : List SymbolId} {answer : Bool} (hne : ty ≠ base) (hold : ty ∈ expanded)
      (hrest : DerivesRun t base rest expanded answer) : DerivesRun t base (ty :: rest) expanded answer
  | expand {ty : SymbolId} {rest expanded : List SymbolId} {answer : Bool} (hne : ty ≠ base) (hnew : ty ∉ expanded)
      (hrest : DerivesRun t base ((t.bases ty).reverse ++ rest) (ty :: expanded) answer) :
      DerivesRun t base (ty :: rest) expanded answer

theorem derivesRun_iff_comesUp {pending expanded : List SymbolId} :
    t.DerivesRun base pending expanded answer ↔ answer = t.comesUp base pending expanded := by
  constructor
  · intro h
    induction h with
    | exhausted => rw [comesUp_nil]
    | found => rw [comesUp_cons_self]
    | again hne hold _ ih => rw [comesUp_cons_of_mem _ hne hold, ih]
    | expand hne hnew _ ih => rw [comesUp_cons_of_not_mem _ hne hnew, ih]
  · rintro rfl
    induction pending, expanded using comesUp.induct t base with
    | case1 expanded =>
      rw [comesUp_nil]
      exact .exhausted
    | case2 expanded rest =>
      rw [comesUp_cons_self]
      exact .found
    | case3 expanded ty rest hne hold ih =>
      rw [comesUp_cons_of_mem rest hne hold]
      exact .again hne hold ih
    | case4 expanded ty rest hne hnew ih =>
      rw [comesUp_cons_of_not_mem rest hne hnew]
      exact .expand hne hnew ih

theorem derivesRun_iff : t.DerivesRun base (t.bases ty).reverse [] answer ↔ answer = t.derivesFrom ty base := by
  rw [derivesRun_iff_comesUp, comesUp_bases_eq]

/-! ### The family of a type -/

/-- The walk from a place, if there is one, through the types around it to one that is the owner or
derives from the owner. -/
inductive FamilyRun (t : SymbolTable) (owner : SymbolId) : Option SymbolId → Bool → Prop
  | nowhere : FamilyRun t owner none false
  | self : FamilyRun t owner (some owner) true
  | derived {ty : SymbolId} (hne : ty ≠ owner) (hderives : t.DerivesRun owner (t.bases ty).reverse [] true) :
      FamilyRun t owner (some ty) true
  | onward {ty : SymbolId} {around : Option SymbolId} {answer : Bool} (hne : ty ≠ owner)
      (hderives : t.DerivesRun owner (t.bases ty).reverse [] false) (haround : t.ContainingTypeRun ty around)
      (hrest : FamilyRun t owner around answer) : FamilyRun t owner (some ty) answer

/-- The place or a type around it is the owner or derives from it. -/
def isInFamily (t : SymbolTable) (owner place : SymbolId) : Bool :=
  (place :: t.enclosingTypes place).any fun s => s == owner || t.derivesFrom s owner

theorem isInFamily_eq (t : SymbolTable) (owner place : SymbolId) : t.isInFamily owner place =
    (place == owner || t.derivesFrom place owner || (t.containingType place).any (t.isInFamily owner)) := by
  rw [isInFamily, enclosingTypes_eq_elim, List.any_cons]
  cases t.containingType place <;> rfl

theorem FamilyRun.eq {place? : Option SymbolId} (h : t.FamilyRun owner place? answer) :
    answer = place?.any (t.isInFamily owner) := by
  induction h with
  | nowhere => rfl
  | self => simp [isInFamily_eq t owner owner]
  | @derived ty hne hderives => simp [isInFamily_eq t owner ty, ← derivesRun_iff.1 hderives]
  | @onward ty around answer hne hderives haround _ ih =>
    simp [isInFamily_eq t owner ty, ← derivesRun_iff.1 hderives, hne, ← haround.eq, ih]

theorem familyRun_isInFamily (hplace : t.contains place = true) :
    t.FamilyRun owner (some place) (t.isInFamily owner place) := by
  induction place using @containingType_induction t with
  | step place ih =>
    rw [isInFamily_eq]
    by_cases hne : place = owner
    · subst hne
      simpa using FamilyRun.self
    cases hderives : t.derivesFrom place owner with
    | true => simpa using FamilyRun.derived hne (derivesRun_iff.2 hderives.symm)
    | false =>
      have haround : t.ContainingTypeRun place (t.containingType place) := (containingTypeRun_iff hplace).2 rfl
      simp only [beq_eq_false_iff_ne.2 hne, Bool.false_or]
      refine .onward hne (derivesRun_iff.2 hderives.symm) haround ?_
      cases htype : t.containingType place with
      | none => exact .nowhere
      | some ty => exact ih ty htype (contains_containingType hplace htype)

/-! ### Access -/

/-- How the accessibility of a symbol is compared with a reference. No walk begins from the place of the
reference unless the accessibility asks where that is. -/
def PermitRun (t : SymbolTable) (context : LookupContext) (s : SymbolId) (owner? : Option SymbolId)
    (answer : Bool) : Prop :=
  let sameModule := (t.data s).module == context.module
  match owner? with
  | none => answer = ((t.data s).accessibility == .publicAccess || sameModule)
  | some owner =>
    match (t.data s).accessibility with
    | .publicAccess => answer = true
    | .internalAccess => answer = sameModule
    | .privateAccess => t.NestedRun context.within owner answer
    | .protectedAccess => t.FamilyRun owner context.within answer
    | .protectedInternal => if sameModule then answer = true else t.FamilyRun owner context.within answer
    | .privateProtected => if sameModule then t.FamilyRun owner context.within answer else answer = false

/-- The walk from a symbol outwards to the first symbol that does not permit the reference. -/
inductive AccessRun (t : SymbolTable) (context : LookupContext) : Option SymbolId → Bool → Prop
  | throughout : AccessRun t context none true
  | denied {s : SymbolId} {owner? : Option SymbolId} (howner : t.ContainingTypeRun s owner?)
      (hdenied : t.PermitRun context s owner? false) : AccessRun t context (some s) false
  | onward {s : SymbolId} {owner? : Option SymbolId} {answer : Bool} (howner : t.ContainingTypeRun s owner?)
      (hpermitted : t.PermitRun context s owner? true) (hrest : AccessRun t context owner? answer) :
      AccessRun t context (some s) answer

theorem isAccessible_eq_and (t : SymbolTable) (context : LookupContext) (s : SymbolId) : t.isAccessible s context =
    (t.isPermitted s context && (t.containingType s).all fun owner => t.isAccessible owner context) := by
  rw [isAccessible, enclosingTypes_eq_elim, List.all_cons]
  cases t.containingType s <;> rfl

section

variable {context : LookupContext} (hcontext : ∀ place, context.within = some place → t.contains place = true)
include hcontext

theorem nestedRun_within_iff :
    t.NestedRun context.within owner answer ↔ answer = context.isWithin t owner := by
  unfold LookupContext.isWithin
  cases hplace : context.within with
  | none => exact nestedRun_none_iff
  | some place => exact nestedRun_some_iff (hcontext place hplace)

theorem familyRun_within_iff :
    t.FamilyRun owner context.within answer ↔ answer = context.isWithinFamily t owner := by
  have hany : context.isWithinFamily t owner = context.within.any (t.isInFamily owner) := by
    unfold LookupContext.isWithinFamily
    cases context.within <;> rfl
  rw [hany]
  refine ⟨FamilyRun.eq, ?_⟩
  rintro rfl
  cases hplace : context.within with
  | none => exact .nowhere
  | some place => exact familyRun_isInFamily (hcontext place hplace)

theorem permitRun_iff :
    t.PermitRun context s (t.containingType s) answer ↔ answer = t.isPermitted s context := by
  unfold PermitRun isPermitted
  cases t.containingType s with
  | none => rfl
  | some owner =>
    cases (t.data s).accessibility with
    | publicAccess | internalAccess => rfl
    | privateAccess => exact nestedRun_within_iff hcontext
    | protectedAccess => exact familyRun_within_iff hcontext
    | protectedInternal | privateProtected =>
      cases (t.data s).module == context.module <;> simp [familyRun_within_iff hcontext]

theorem AccessRun.eq {place? : Option SymbolId} (h : t.AccessRun context place? answer) :
    answer = place?.all fun s => t.isAccessible s context := by
  induction h with
  | throughout => rfl
  | @denied s owner? howner hdenied =>
    rw [howner.eq, permitRun_iff hcontext] at hdenied
    simp [isAccessible_eq_and t context s, ← hdenied]
  | @onward s owner? answer howner hpermitted _ ih =>
    rw [howner.eq, permitRun_iff hcontext] at hpermitted
    simp [isAccessible_eq_and t context s, ← hpermitted, ← howner.eq, ih]

theorem accessRun_iff (hs : t.contains s = true) :
    t.AccessRun context (some s) answer ↔ answer = t.isAccessible s context := by
  refine ⟨AccessRun.eq hcontext, ?_⟩
  rintro rfl
  induction s using @containingType_induction t with
  | step s ih =>
    have howner : t.ContainingTypeRun s (t.containingType s) := (containingTypeRun_iff hs).2 rfl
    rw [isAccessible_eq_and]
    cases hpermitted : t.isPermitted s context with
    | false => exact .denied howner ((permitRun_iff hcontext).2 hpermitted.symm)
    | true =>
      refine .onward howner ((permitRun_iff hcontext).2 hpermitted.symm) ?_
      cases htype : t.containingType s with
      | none => exact .throughout
      | some ty => exact ih ty htype (contains_containingType hs htype)

end

end SymbolTable

/-! ### Checks -/

namespace ScopeQuery

/-- How a candidate is checked. Access is asked for last, if nothing else has turned the candidate
down. -/
def CheckRun (query : ScopeQuery) (t : SymbolTable) (candidate : SymbolId) (verdict : Viability) : Prop :=
  t.contains candidate = true ∧
    let s := t.data candidate
    if query.options.mustBeInvocableIfMember && s.kind.isMember && !s.isInvocable then
      verdict = .notViable .notInvocable
    else match query.kindMismatch? s with
    | some reason => verdict = .notViable reason
    | none =>
      if query.instanceMismatch s then verdict = .notViable .wrongInstanceContext
      else if !query.arityMatches s then verdict = .notViable (.wrongArity query.arity s.arity)
      else ∃ accessible, t.AccessRun query.context (some candidate) accessible ∧
        verdict = if accessible then .viable else .notViable .inaccessible

/-- The check of a symbol has exactly one run for each reference from a place in the table. -/
theorem checkRun_iff {query : ScopeQuery} {t : SymbolTable} {candidate : SymbolId} {verdict : Viability}
    (hcontext : ∀ place, query.context.within = some place → t.contains place = true)
    (hcandidate : t.contains candidate = true) :
    query.CheckRun t candidate verdict ↔ verdict = query.check t candidate := by
  rw [CheckRun, and_iff_right hcandidate]
  unfold check
  dsimp only
  split
  · rfl
  · cases query.kindMismatch? (t.data candidate) with
    | some reason => rfl
    | none =>
      simp only [SymbolTable.accessRun_iff hcontext hcandidate, exists_eq_left]
      split
      · rfl
      · split
        · rfl
        · cases t.isAccessible candidate query.context <;> rfl

end ScopeQuery

end NameResolution
