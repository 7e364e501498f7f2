import Mathlib.Order.Defs.Unbundled
import NameResolution.Proofs.Tables.Building
import NameResolution.Proofs.Tables.Outward

/-! Nesting. A walk outwards follows one container link after the other and keeps no count of its
steps. That it ends, and that no two symbols are nested in each other, rests on containers being
declared before what they hold. The walk that looks for the containing type passes namespaces and
methods, the walk that looks for a given symbol passes everything else, and the two agree about the
types around a symbol. -/

namespace NameResolution

/-- The search of a list for a given member. -/
theorem find?_beq_eq {α : Type} [DecidableEq α] (xs : List α) (x : α) :
    xs.find? (· == x) = if x ∈ xs then some x else none := by
  split
  · next hmem =>
    cases hfind : xs.find? (· == x) with
    | none => exact absurd (beq_self_eq_true x) (List.find?_eq_none.1 hfind x hmem)
    | some y =>
      have hyx := List.find?_some hfind
      rw [beq_iff_eq.1 hyx]
  · next hmem => exact List.find?_eq_none.2 fun y hy hyx => hmem (beq_iff_eq.1 hyx ▸ hy)

namespace SymbolTable

variable {t : SymbolTable} {s c outer ty : SymbolId}

/-! ### Walks outwards -/

/-- How a walk outwards from a place ends: at the first symbol it looks for, or nowhere if it leaves
the outermost symbol. It reads symbols of the table only, and nothing bounds its length. -/
inductive WalkOut (t : SymbolTable) (wanted : SymbolId → Bool) : Option SymbolId → Option SymbolId → Prop where
  | nowhere : WalkOut t wanted none none
  | arrived {s : SymbolId} (hs : t.contains s = true) (hwanted : wanted s = true) :
      WalkOut t wanted (some s) (some s)
  | onward {s : SymbolId} {found : Option SymbolId} (hs : t.contains s = true) (hpassed : wanted s = false)
      (hrest : WalkOut t wanted (t.data s).container found) : WalkOut t wanted (some s) found

namespace WalkOut

variable {wanted : SymbolId → Bool} {place found found' : Option SymbolId}

theorem unique (h : t.WalkOut wanted place found) (h' : t.WalkOut wanted place found') : found = found' := by
  induction h with
  | nowhere =>
    cases h'
    rfl
  | arrived hs hwanted =>
    cases h' with
    | arrived => rfl
    | onward _ hpassed =>
      rw [hwanted] at hpassed
      cases hpassed
  | onward hs hpassed hrest ih =>
    cases h' with
    | arrived _ hwanted =>
      rw [hpassed] at hwanted
      cases hwanted
    | onward _ _ hrest' => exact ih hrest'

/-- A walk that searches a list of symbols outside `s` searches `s` before them if it starts there. -/
theorem start {outside : List SymbolId} (hs : t.contains s = true)
    (h : t.WalkOut wanted (t.data s).container (outside.find? wanted)) :
    t.WalkOut wanted (some s) ((s :: outside).find? wanted) := by
  rw [List.find?_cons]
  cases hwanted : wanted s with
  | true => exact .arrived hs hwanted
  | false => exact .onward hs hwanted h

end WalkOut

/-- Outside a symbol a walk searches the containers in their order. -/
theorem walkOut_container (wanted : SymbolId → Bool) (hs : t.contains s = true) :
    t.WalkOut wanted (t.data s).container ((t.containers s).find? wanted) := by
  induction s using containers_induction t with
  | outermost s hnone hlist =>
    rw [hnone, hlist]
    exact .nowhere
  | inside s owner howner hlist ih =>
    have hknown : t.contains owner = true := contains_container hs howner
    rw [howner, hlist]
    exact .start hknown (ih hknown)

theorem walkOut_iff_containingType (hs : t.contains s = true) (found : Option SymbolId) :
    t.WalkOut (fun c => (t.data c).isType) (t.data s).container found ↔ found = t.containingType s := by
  have hwalk := walkOut_container (fun c => (t.data c).isType) hs
  exact ⟨fun hfound => hfound.unique hwalk, fun hfound => hfound ▸ hwalk⟩

theorem walkOut_iff_isNestedIn (hs : t.contains s = true) (outer : SymbolId) (found : Option SymbolId) :
    t.WalkOut (· == outer) (some s) found ↔ found = if t.isNestedIn s outer then some outer else none := by
  have hwalk := WalkOut.start hs (walkOut_container (· == outer) hs)
  have hmem : t.isNestedIn s outer = true ↔ outer ∈ s :: t.containers s := by
    rw [isNestedIn_iff, List.mem_cons, @eq_comm _ s]
  simp only [find?_beq_eq, ← hmem] at hwalk
  exact ⟨fun hfound => hfound.unique hwalk, fun hfound => hfound ▸ hwalk⟩

/-! ### The order of nesting -/

theorem index_lt_of_mem_containers (hmem : outer ∈ t.containers s) : outer.index < s.index := by
  rw [mem_containers_iff] at hmem
  induction hmem with
  | single howner => exact index_lt_of_container howner
  | tail _ howner ih => exact Nat.lt_trans (index_lt_of_container howner) ih

theorem isNestedIn_antisymm (hin : t.isNestedIn s outer = true) (hout : t.isNestedIn outer s = true) :
    s = outer := by
  rcases isNestedIn_iff.1 hin with heq | hin
  · exact heq
  rcases isNestedIn_iff.1 hout with heq | hout
  · exact heq.symm
  have hearlier : outer.index < s.index := index_lt_of_mem_containers hin
  have hlater : s.index < outer.index := index_lt_of_mem_containers hout
  omega

theorem isPartialOrder_isNestedIn : IsPartialOrder SymbolId fun s outer => t.isNestedIn s outer = true where
  refl _ := isNestedIn_iff.2 (Or.inl rfl)
  trans _ _ _ := isNestedIn_trans
  antisymm _ _ := isNestedIn_antisymm

/-! ### The containing type -/

/-- A type declaration, other than the symbol, that the symbol is nested in. -/
structure EnclosingType (t : SymbolTable) (s ty : SymbolId) : Prop where
  isType : (t.data ty).isType = true
  ne : ty ≠ s
  isNestedIn : t.isNestedIn s ty = true

theorem mem_enclosingTypes_iff_enclosingType : ty ∈ t.enclosingTypes s ↔ t.EnclosingType s ty := by
  rw [mem_enclosingTypes_iff]
  constructor
  · rintro ⟨hmem, htype⟩
    have hne : ty ≠ s := by
      rintro rfl
      exact Nat.lt_irrefl _ (index_lt_of_mem_containers hmem)
    exact ⟨htype, hne, isNestedIn_iff.2 (Or.inr hmem)⟩
  · rintro ⟨htype, hne, hin⟩
    exact ⟨(isNestedIn_iff.1 hin).resolve_left hne.symm, htype⟩

theorem enclosingType_of_containingType (hty : t.containingType s = some ty) : t.EnclosingType s ty := by
  rw [← mem_enclosingTypes_iff_enclosingType, enclosingTypes_eq_cons hty]
  exact List.mem_cons_self

theorem isNestedIn_of_containingType (hty : t.containingType s = some ty) (houter : t.EnclosingType s outer) :
    t.isNestedIn ty outer = true := by
  rw [← mem_enclosingTypes_iff_enclosingType, enclosingTypes_eq_cons hty, List.mem_cons] at houter
  rw [isNestedIn_iff]
  exact houter.imp Eq.symm fun hmem => (mem_enclosingTypes_iff.1 hmem).1

theorem containingType_eq_none_iff : t.containingType s = none ↔ ∀ ty, ¬t.EnclosingType s ty := by
  simp only [containingType, List.find?_eq_none, ← mem_enclosingTypes_iff_enclosingType, mem_enclosingTypes_iff,
    not_and]

/-- The containing type is the innermost of the types around a symbol. -/
theorem containingType_eq_some_iff : t.containingType s = some ty ↔
    t.EnclosingType s ty ∧ ∀ outer, t.EnclosingType s outer → t.isNestedIn ty outer = true := by
  constructor
  · intro hty
    exact ⟨enclosingType_of_containingType hty, fun _ => isNestedIn_of_containingType hty⟩
  · rintro ⟨hty, hinnermost⟩
    cases hfirst : t.containingType s with
    | none => exact absurd hty (containingType_eq_none_iff.1 hfirst ty)
    | some first =>
      -- each of the two types is nested in the other
      have hout : t.isNestedIn first ty = true := isNestedIn_of_containingType hfirst hty
      have hin : t.isNestedIn ty first = true := hinnermost first (enclosingType_of_containingType hfirst)
      rw [isNestedIn_antisymm hout hin]

end SymbolTable

/-- In a table built by declarations inside what is declared before, symbols have the containers that
the declarations give. All walks outwards end, and each has one answer only. Nesting is a partial order
and holds exactly where container links lead. The containing type of a symbol is the type around it that
is nested in all others, and a symbol has none only if there is no type around it. -/
theorem nesting_orders_symbols (names : Interner) (script : Script names) :
    let t := script.table
    t.links = none :: script.steps.flatMap Declaration.links ∧
    (∀ s, t.contains s = true →
      (∀ outer found, t.WalkOut (· == outer) (some s) found ↔
        found = if t.isNestedIn s outer then some outer else none) ∧
      ∀ found, t.WalkOut (fun c => (t.data c).isType) (t.data s).container found ↔ found = t.containingType s) ∧
    IsPartialOrder SymbolId (fun s outer => t.isNestedIn s outer = true) ∧
    (∀ s outer, t.isNestedIn s outer = true ↔
      Relation.ReflTransGen (fun a b => (t.data a).container = some b) s outer) ∧
    (∀ s ty, t.containingType s = some ty ↔
      t.EnclosingType s ty ∧ ∀ outer, t.EnclosingType s outer → t.isNestedIn ty outer = true) ∧
    ∀ s, t.containingType s = none ↔ ∀ ty, ¬t.EnclosingType s ty := by
  intro t
  exact ⟨script.links_table,
    fun s hs => ⟨SymbolTable.walkOut_iff_isNestedIn hs, SymbolTable.walkOut_iff_containingType hs⟩,
    SymbolTable.isPartialOrder_isNestedIn, fun s outer => SymbolTable.isNestedIn_iff_path,
    fun s ty => SymbolTable.containingType_eq_some_iff, fun s => SymbolTable.containingType_eq_none_iff⟩

/-- Type 4 is declared in a method of type 2, which is in namespace 1, and has a field 6 after its type
parameter. -/
def localTypeInNamespace : Script .empty where
  steps := [.namespaceIn ⟨0⟩ "App", .typeIn ⟨1⟩ "Outer" .classType 0, .memberIn ⟨2⟩ "Run" .method .publicAccess,
    .typeIn ⟨3⟩ "Local" .structType 1, .typeParameters ⟨4⟩ ["T"], .memberIn ⟨4⟩ "x" .field .privateAccess]
  knowsContainers := by decide +kernel

/-- The walk from the method finds the outer type, which has no type around it, and the local type is
the innermost one around the field. -/
theorem nesting_orders_symbols_localTypeInNamespace :
    let t := localTypeInNamespace.table
    t.links = [none, some ⟨0⟩, some ⟨1⟩, some ⟨2⟩, some ⟨3⟩, some ⟨4⟩, some ⟨4⟩] ∧
      t.WalkOut (fun c => (t.data c).isType) (some ⟨3⟩) (some ⟨2⟩) ∧ t.WalkOut (· == ⟨4⟩) (some ⟨3⟩) none ∧
      (∀ ty, ¬t.EnclosingType ⟨2⟩ ty) ∧
      Relation.ReflTransGen (fun a b => (t.data a).container = some b) ⟨6⟩ ⟨1⟩ ∧
      t.EnclosingType ⟨6⟩ ⟨4⟩ ∧ t.EnclosingType ⟨6⟩ ⟨2⟩ ∧
      ∀ ty, t.EnclosingType ⟨6⟩ ty → t.isNestedIn ⟨4⟩ ty = true := by
  intro t
  obtain ⟨hlinks, hwalks, -, hpath, hsome, hnone⟩ := nesting_orders_symbols .empty localTypeInNamespace
  have hwalk := ((hwalks ⟨4⟩ (by decide +kernel)).2 (some ⟨2⟩)).2 (by decide +kernel)
  have hvain := ((hwalks ⟨3⟩ (by decide +kernel)).1 ⟨4⟩ none).2 (by decide +kernel)
  obtain ⟨hlocal, hinnermost⟩ := (hsome ⟨6⟩ ⟨4⟩).1 (by decide +kernel)
  exact ⟨hlinks, hwalk, hvain, (hnone ⟨2⟩).1 (by decide +kernel), (hpath ⟨6⟩ ⟨1⟩).1 (by decide +kernel), hlocal,
    ⟨by decide +kernel, by decide, by decide +kernel⟩, hinnermost⟩

end NameResolution
