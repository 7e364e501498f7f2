import NameResolution.Lookup.Viability
import NameResolution.Proofs.Inheritance.Walk
import NameResolution.Proofs.Tables.Outward

/-! Tables that agree on a name. They have the same members by that name and the same base types,
and the symbols of one have the same data in the other. What a table says about these symbols and
about references that stand inside one of them, the other says as well. -/

namespace NameResolution

namespace SymbolTable

/-- The later table says the same as the earlier one about its symbols and about the name. -/
structure AgreesOn (t : SymbolTable) (name : NameId) (later : SymbolTable) : Prop where
  membersNamed_eq : ∀ c, later.membersNamed c name = t.membersNamed c name
  bases_eq : ∀ s, later.bases s = t.bases s
  data_eq : ∀ s, t.contains s = true → later.data s = t.data s

variable {t later : SymbolTable} {name : NameId} {s : SymbolId}

namespace AgreesOn

variable (h : t.AgreesOn name later)
include h

/-! ### Base types -/

theorem followed_eq (follows : SymbolId → Bool) (ty : SymbolId) :
    later.followed follows ty = t.followed follows ty := by
  rw [followed, h.bases_eq, followed]

theorem walkBases_eq (follows : SymbolId → Bool) (pending seen : List SymbolId) :
    later.walkBases follows pending seen = t.walkBases follows pending seen := by
  induction pending, seen using walkBases_induction t follows with
  | done seen => rw [walkBases_nil, walkBases_nil]
  | pass ty rest seen hmem ih => rw [walkBases_cons_of_mem hmem, walkBases_cons_of_mem hmem, ih]
  | enter ty rest seen hnew ih =>
    rw [walkBases_cons_of_not_mem hnew, walkBases_cons_of_not_mem hnew, h.followed_eq, ih]

theorem derivesFrom_eq (ty base : SymbolId) : later.derivesFrom ty base = t.derivesFrom ty base := by
  rw [derivesFrom, h.bases_eq, h.walkBases_eq, derivesFrom]

/-! ### Containers -/

theorem containers_eq (hs : t.contains s = true) : later.containers s = t.containers s := by
  induction s using containers_induction t with
  | outermost s hnone hlist => rw [hlist, containers_eq_nil ((congrArg _ (h.data_eq s hs)).trans hnone)]
  | inside s owner howner hlist ih =>
    rw [hlist, containers_eq_cons ((congrArg _ (h.data_eq s hs)).trans howner), ih (contains_container hs howner)]

theorem enclosingTypes_eq (hs : t.contains s = true) : later.enclosingTypes s = t.enclosingTypes s := by
  rw [enclosingTypes, h.containers_eq hs, enclosingTypes]
  apply List.filter_congr
  intro c hc
  rw [h.data_eq c (contains_of_mem_containers hs hc)]

theorem containingType_eq (hs : t.contains s = true) : later.containingType s = t.containingType s := by
  have hhead := congrArg List.head? (h.enclosingTypes_eq hs)
  rwa [enclosingTypes, enclosingTypes, List.head?_filter, List.head?_filter] at hhead

theorem isNestedIn_eq (hs : t.contains s = true) (outer : SymbolId) :
    later.isNestedIn s outer = t.isNestedIn s outer := by
  rw [isNestedIn, h.containers_eq hs, isNestedIn]

/-! ### Access -/

variable {context : LookupContext} (hcontext : ∀ place, context.within = some place → t.contains place = true)
include hcontext

theorem isWithin_eq (owner : SymbolId) : context.isWithin later owner = context.isWithin t owner := by
  unfold LookupContext.isWithin
  cases hplace : context.within with
  | none => rfl
  | some place => exact h.isNestedIn_eq (hcontext place hplace) owner

theorem isWithinFamily_eq (owner : SymbolId) :
    context.isWithinFamily later owner = context.isWithinFamily t owner := by
  unfold LookupContext.isWithinFamily
  cases hplace : context.within with
  | none => rfl
  | some place =>
    simp only [h.enclosingTypes_eq (hcontext place hplace), h.derivesFrom_eq]

theorem isPermitted_eq (hs : t.contains s = true) : later.isPermitted s context = t.isPermitted s context := by
  unfold isPermitted
  rw [h.data_eq s hs, h.containingType_eq hs]
  simp only [h.isWithin_eq hcontext, h.isWithinFamily_eq hcontext]

theorem isAccessible_eq (hs : t.contains s = true) :
    later.isAccessible s context = t.isAccessible s context := by
  have hpermitted : ∀ x ∈ s :: t.enclosingTypes s, later.isPermitted x context = t.isPermitted x context := by
    intro x hx
    apply h.isPermitted_eq hcontext
    rcases List.mem_cons.1 hx with rfl | hx
    · exact hs
    · exact contains_of_mem_containers hs (mem_enclosingTypes_iff.1 hx).1
  rw [isAccessible, h.enclosingTypes_eq hs, isAccessible]
  rw [Bool.eq_iff_iff, List.all_eq_true, List.all_eq_true]
  exact forall₂_congr fun x hx => by rw [hpermitted x hx]

end AgreesOn

end SymbolTable

/-- Whether a candidate is usable is a matter of its data, its surroundings and the types around the
reference. -/
theorem SymbolTable.AgreesOn.check_eq {t later : SymbolTable} {name : NameId} (h : t.AgreesOn name later)
    {query : ScopeQuery} (hcontext : ∀ place, query.context.within = some place → t.contains place = true)
    {s : SymbolId} (hs : t.contains s = true) : query.check later s = query.check t s := by
  unfold ScopeQuery.check
  rw [h.data_eq s hs, h.isAccessible_eq hcontext hs]

end NameResolution
