import Mathlib.Logic.Relation
import NameResolution.Symbol.Containment

/-! Paths outwards. The containers of a symbol are met one link after the other, and so are the
types around it, whatever namespaces and methods lie between them. What is around a container is
around everything that the container holds. -/

namespace NameResolution.SymbolTable

variable {t : SymbolTable} {s c outer ty place x : SymbolId}

/-! ### Containers -/

/-- The walk either ends at a symbol or goes on to its container. -/
@[elab_as_elim] theorem containers_induction (t : SymbolTable) {motive : SymbolId → Prop}
    (outermost : ∀ s, (t.data s).container = none → t.containers s = [] → motive s)
    (inside : ∀ s owner, (t.data s).container = some owner → t.containers s = owner :: t.containers owner →
      motive owner → motive s) (s : SymbolId) : motive s := by
  induction s using containers.induct t with
  | case1 s hnone => exact outermost s hnone (containers_eq_nil hnone)
  | case2 s owner howner ih => exact inside s owner howner (containers_eq_cons howner) ih

theorem isNestedIn_iff : t.isNestedIn s outer = true ↔ s = outer ∨ outer ∈ t.containers s := by
  rw [isNestedIn, Bool.or_eq_true, beq_iff_eq, List.contains_iff_mem]

theorem mem_enclosingTypes_iff :
    outer ∈ t.enclosingTypes s ↔ outer ∈ t.containers s ∧ (t.data outer).isType = true :=
  List.mem_filter

/-- Whatever is around a symbol of the table is a symbol of the table. -/
theorem contains_container (hs : t.contains s = true) (hc : (t.data s).container = some c) : t.contains c = true :=
  decide_eq_true (Nat.lt_trans (index_lt_of_container hc) (of_decide_eq_true hs))

theorem contains_of_mem_containers (hs : t.contains s = true) (hc : c ∈ t.containers s) : t.contains c = true := by
  induction s using containers_induction t with
  | outermost s _ hlist =>
    rw [hlist] at hc
    cases hc
  | inside s owner howner hlist ih =>
    rw [hlist] at hc
    rcases List.mem_cons.1 hc with rfl | hc
    · exact contains_container hs howner
    · exact ih (contains_container hs howner) hc

theorem containers_subset (h : c ∈ t.containers s) : t.containers c ⊆ t.containers s := by
  induction s using containers_induction t with
  | outermost s _ hlist =>
    rw [hlist] at h
    cases h
  | inside s owner howner hlist ih =>
    rw [hlist] at h ⊢
    rcases List.mem_cons.1 h with rfl | h
    · exact List.subset_cons_self _ _
    · exact List.subset_cons_of_subset _ (ih h)

theorem isNestedIn_trans (h : t.isNestedIn s c = true) (h' : t.isNestedIn c outer = true) :
    t.isNestedIn s outer = true := by
  rw [isNestedIn_iff] at h h' ⊢
  rcases h with rfl | h
  · exact h'
  · rcases h' with rfl | h'
    · exact Or.inr h
    · exact Or.inr (containers_subset h h')

/-- The walk along containers takes every link. -/
theorem mem_containers_iff :
    outer ∈ t.containers s ↔ Relation.TransGen (fun a b => (t.data a).container = some b) s outer := by
  constructor
  · intro hmem
    induction s using containers_induction t with
    | outermost s _ hlist =>
      rw [hlist] at hmem
      cases hmem
    | inside s owner howner hlist ih =>
      rw [hlist] at hmem
      rcases List.mem_cons.1 hmem with rfl | hmem
      · exact .single howner
      · exact .head howner (ih hmem)
  · intro hpath
    induction hpath using Relation.TransGen.head_induction_on with
    | single howner =>
      rw [containers_eq_cons howner]
      exact List.mem_cons_self
    | head howner _ ih =>
      rw [containers_eq_cons howner]
      exact List.mem_cons_of_mem _ ih

theorem isNestedIn_iff_path : t.isNestedIn s outer = true ↔
    Relation.ReflTransGen (fun a b => (t.data a).container = some b) s outer := by
  rw [isNestedIn_iff, mem_containers_iff, Relation.reflTransGen_iff_eq_or_transGen, @eq_comm _ s]

/-! ### Enclosing types -/

/-- The containing type of a member is the type that declares it. -/
theorem containingType_of_container (hc : (t.data s).container = some c) (htype : (t.data c).isType = true) :
    t.containingType s = some c := by
  simp only [containingType, containers_eq_cons hc, List.find?_cons, htype]

/-- The types around a symbol are its containing type and the types around that one. -/
theorem enclosingTypes_eq_elim (t : SymbolTable) (s : SymbolId) :
    t.enclosingTypes s = (t.containingType s).elim [] fun owner => owner :: t.enclosingTypes owner := by
  unfold enclosingTypes containingType
  induction s using containers_induction t with
  | outermost s _ hlist =>
    rw [hlist]
    rfl
  | inside s owner howner hlist ih =>
    rw [hlist, List.filter_cons, List.find?_cons]
    cases (t.data owner).isType with
    | true => rfl
    | false => exact ih

theorem enclosingTypes_eq_cons (h : t.containingType s = some ty) :
    t.enclosingTypes s = ty :: t.enclosingTypes ty := by
  rw [enclosingTypes_eq_elim, h, Option.elim_some]

/-- The types around a symbol are those that containing types lead to. -/
theorem mem_enclosingTypes_iff_path :
    x ∈ t.enclosingTypes s ↔ Relation.TransGen (fun a b => t.containingType a = some b) s x := by
  constructor
  · intro hmem
    -- The list gets shorter from a symbol to its containing type.
    induction hlist : t.enclosingTypes s generalizing s with
    | nil =>
      rw [hlist] at hmem
      cases hmem
    | cons owner rest ih =>
      cases howner : t.containingType s with
      | none =>
        rw [enclosingTypes_eq_elim, howner] at hlist
        cases hlist
      | some ty =>
        rw [enclosingTypes_eq_cons howner] at hlist hmem
        obtain ⟨rfl, hrest⟩ := List.cons.inj hlist
        rcases List.mem_cons.1 hmem with rfl | hmem
        · exact .single howner
        · exact .head howner (ih hmem hrest)
  · intro hpath
    induction hpath using Relation.TransGen.head_induction_on with
    | single howner =>
      rw [enclosingTypes_eq_cons howner]
      exact List.mem_cons_self
    | head howner _ ih =>
      rw [enclosingTypes_eq_cons howner]
      exact List.mem_cons_of_mem _ ih

/-- A symbol together with the types around it. -/
theorem mem_cons_enclosingTypes_iff_path :
    x ∈ s :: t.enclosingTypes s ↔ Relation.ReflTransGen (fun a b => t.containingType a = some b) s x := by
  rw [List.mem_cons, mem_enclosingTypes_iff_path, Relation.reflTransGen_iff_eq_or_transGen]

/-- From further inside a type, the type and everything around it are still around. -/
theorem cons_enclosingTypes_subset (htype : (t.data ty).isType = true) (hplace : t.isNestedIn place ty = true) :
    ty :: t.enclosingTypes ty ⊆ place :: t.enclosingTypes place := by
  rcases isNestedIn_iff.1 hplace with rfl | hcontainer
  · exact List.Subset.refl _
  · intro x hx
    apply List.mem_cons_of_mem
    rw [mem_enclosingTypes_iff]
    rcases List.mem_cons.1 hx with rfl | hx
    · exact ⟨hcontainer, htype⟩
    · obtain ⟨hx, hxtype⟩ := mem_enclosingTypes_iff.1 hx
      exact ⟨containers_subset hcontainer hx, hxtype⟩

end NameResolution.SymbolTable
