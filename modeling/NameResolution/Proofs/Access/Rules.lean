import NameResolution.Proofs.Access.Runs

/-! Rules of access. Who may refer to a symbol is a matter of seven rules about its own
accessibility, which have to admit the symbol and every type around it. The rules speak of the
reference only through its module, the symbols that it stands inside, and the types of which it
belongs to the family. -/

namespace NameResolution

variable {t : SymbolTable} {context : LookupContext} {s owner : SymbolId}

namespace SymbolTable

/-- The rules by which a symbol admits a reference from a module, given which symbols the reference
stands `inside` and to which families it belongs. -/
inductive Admits (t : SymbolTable) (module : ModuleId) (inside family : SymbolId → Prop) (s : SymbolId) : Prop where
  | everywhere (h : (t.data s).accessibility = .publicAccess)
  | topLevel (hnone : t.containingType s = none) (hmodule : (t.data s).module = module)
  | inModule {owner : SymbolId} (howner : t.containingType s = some owner)
      (h : (t.data s).accessibility = .internalAccess) (hmodule : (t.data s).module = module)
  | insideOwner {owner : SymbolId} (howner : t.containingType s = some owner)
      (h : (t.data s).accessibility = .privateAccess) (hinside : inside owner)
  | inFamily {owner : SymbolId} (howner : t.containingType s = some owner)
      (h : (t.data s).accessibility = .protectedAccess) (hfamily : family owner)
  | inModuleOrFamily {owner : SymbolId} (howner : t.containingType s = some owner)
      (h : (t.data s).accessibility = .protectedInternal) (heither : (t.data s).module = module ∨ family owner)
  | inModuleAndFamily {owner : SymbolId} (howner : t.containingType s = some owner)
      (h : (t.data s).accessibility = .privateProtected) (hmodule : (t.data s).module = module)
      (hfamily : family owner)

/-- No rule asks that a reference does not stand somewhere. -/
theorem Admits.mono {module : ModuleId} {inside inside' family family' : SymbolId → Prop}
    (hinside : ∀ owner, inside owner → inside' owner) (hfamily : ∀ owner, family owner → family' owner)
    (h : t.Admits module inside family s) : t.Admits module inside' family' s := by
  cases h with
  | everywhere h => exact .everywhere h
  | topLevel hnone hmodule => exact .topLevel hnone hmodule
  | inModule howner h hmodule => exact .inModule howner h hmodule
  | insideOwner howner h hin => exact .insideOwner howner h (hinside _ hin)
  | inFamily howner h hfam => exact .inFamily howner h (hfamily _ hfam)
  | inModuleOrFamily howner h heither => exact .inModuleOrFamily howner h (heither.imp_right (hfamily _))
  | inModuleAndFamily howner h hmodule hfam => exact .inModuleAndFamily howner h hmodule (hfamily _ hfam)

/-- The check of one symbol follows the rules. -/
theorem isPermitted_iff : t.isPermitted s context = true ↔
    t.Admits context.module (fun x => context.isWithin t x = true) (fun x => context.isWithinFamily t x = true) s := by
  constructor
  · intro h
    unfold isPermitted at h
    cases howner : t.containingType s with
    | none =>
      simp only [howner, Bool.or_eq_true, beq_iff_eq] at h
      exact h.elim .everywhere (.topLevel howner)
    | some owner =>
      cases haccess : (t.data s).accessibility <;>
        simp only [howner, haccess, Bool.or_eq_true, Bool.and_eq_true, beq_iff_eq] at h
      case publicAccess => exact .everywhere haccess
      case protectedInternal => exact .inModuleOrFamily howner haccess h
      case internalAccess => exact .inModule howner haccess h
      case protectedAccess => exact .inFamily howner haccess h
      case privateProtected => exact .inModuleAndFamily howner haccess h.1 h.2
      case privateAccess => exact .insideOwner howner haccess h
  · intro h
    unfold isPermitted
    cases h with
    | everywhere h => cases t.containingType s <;> simp [h]
    | topLevel hnone hmodule => simp [hnone, hmodule]
    | inModule howner h hmodule => simp [howner, h, hmodule]
    | insideOwner howner h hinside => simp [howner, h, hinside]
    | inFamily howner h hfamily => simp [howner, h, hfamily]
    | inModuleOrFamily howner h heither => simpa [howner, h] using heither
    | inModuleAndFamily howner h hmodule hfamily => simp [howner, h, hmodule, hfamily]

/-- The rules apply to the symbol and to all types around it alike. -/
theorem isAccessible_iff : t.isAccessible s context = true ↔
    ∀ x, Relation.ReflTransGen (fun a b => t.containingType a = some b) s x → t.isPermitted x context = true := by
  rw [isAccessible, List.all_eq_true]
  exact forall_congr' fun x => by rw [mem_cons_enclosingTypes_iff_path]

end SymbolTable

/-! ### Where a reference stands -/

namespace LookupContext

/-- Links from containers to what is around them lead from the place of the reference to the symbol. -/
def StandsInside (context : LookupContext) (t : SymbolTable) (owner : SymbolId) : Prop :=
  ∃ place, context.within = some place ∧
    Relation.ReflTransGen (fun a b => (t.data a).container = some b) place owner

/-- The place of the reference or a type around it is the type or derives from it. -/
def BelongsToFamily (context : LookupContext) (t : SymbolTable) (owner : SymbolId) : Prop :=
  ∃ place ty, context.within = some place ∧
    Relation.ReflTransGen (fun a b => t.containingType a = some b) place ty ∧
    (ty = owner ∨ Relation.TransGen (fun a b => b ∈ t.bases a) ty owner)

theorem isWithin_iff : context.isWithin t owner = true ↔ context.StandsInside t owner := by
  unfold isWithin StandsInside
  cases context.within with
  | none => simp
  | some place => simp [SymbolTable.isNestedIn_iff_path]

theorem isWithinFamily_iff : context.isWithinFamily t owner = true ↔ context.BelongsToFamily t owner := by
  unfold isWithinFamily BelongsToFamily
  cases context.within with
  | none => simp
  | some place =>
    simp only [List.any_eq_true, SymbolTable.mem_cons_enclosingTypes_iff_path, Bool.or_eq_true, beq_iff_eq,
      SymbolTable.derivesFrom_iff, Option.some.injEq, exists_and_left, exists_eq_left']

end LookupContext

/-- A symbol is accessible exactly if the rules admit the reference to the symbol and to every type
that is reached from it from containing type to containing type, which are the types among everything
that its containers lead to. Containers are declared before what they hold, so that all walks outwards
end, and the walk that decides access does so for every symbol and every reference from a place in the
table. -/
theorem accessible_iff_admitted_throughout (t : SymbolTable) :
    (∀ s c, (t.data s).container = some c → c.index < s.index) ∧
    (∀ context : LookupContext, (∀ place, context.within = some place → t.contains place = true) →
      ∀ s, t.contains s = true → ∀ answer, t.AccessRun context (some s) answer ↔ answer = t.isAccessible s context) ∧
    (∀ s x, Relation.TransGen (fun a b => t.containingType a = some b) s x ↔
      Relation.TransGen (fun a b => (t.data a).container = some b) s x ∧ (t.data x).isType = true) ∧
    ∀ (s : SymbolId) (context : LookupContext), t.isAccessible s context = true ↔
      ∀ x, Relation.ReflTransGen (fun a b => t.containingType a = some b) s x →
        t.Admits context.module (context.StandsInside t) (context.BelongsToFamily t) x := by
  refine ⟨fun s c => SymbolTable.index_lt_of_container, ?_, fun s x => ?_,
    fun s context => SymbolTable.isAccessible_iff.trans ?_⟩
  · intro context hcontext s hs answer
    exact SymbolTable.accessRun_iff hcontext hs
  · rw [← SymbolTable.mem_enclosingTypes_iff_path, SymbolTable.mem_enclosingTypes_iff,
      SymbolTable.mem_containers_iff]
  · have hinside : (fun x => context.isWithin t x = true) = context.StandsInside t :=
      funext fun x => propext LookupContext.isWithin_iff
    have hfamily : (fun x => context.isWithinFamily t x = true) = context.BelongsToFamily t :=
      funext fun x => propext LookupContext.isWithinFamily_iff
    simp only [SymbolTable.isPermitted_iff, hinside, hfamily]

/-- Type 3 is internal and declared in a method of type 1. It has a field 4, and type 5 with a method
6 derives from it. -/
def fieldOfLocalType : List Declaration :=
  [.typeIn ⟨0⟩ "Outer" .classType 0, .memberIn ⟨1⟩ "M" .method .publicAccess,
    .symbol { name := ⟨2⟩, kind := .typeDecl .classType, accessibility := .internalAccess, container := some ⟨2⟩ },
    .memberIn ⟨3⟩ "x" .field .privateProtected, .typeIn ⟨0⟩ "Derived" .classType 0,
    .memberIn ⟨5⟩ "N" .method .publicAccess, .base ⟨5⟩ ⟨3⟩]

/-- The field can be used in the derived type, which a walk outwards from the field finds, but only in
the same module. -/
theorem accessible_iff_admitted_throughout_fieldOfLocalType :
    let t := ((Builder.start .empty).declareAll fieldOfLocalType).table
    let near : LookupContext := ⟨⟨0⟩, some ⟨6⟩⟩
    let far : LookupContext := ⟨⟨1⟩, some ⟨6⟩⟩
    (∀ place, near.within = some place → t.contains place = true) ∧ t.contains ⟨4⟩ = true ∧
      t.enclosingTypes ⟨4⟩ = [⟨3⟩, ⟨1⟩] ∧ near.BelongsToFamily t ⟨3⟩ ∧ t.AccessRun near (some ⟨4⟩) true ∧
      ¬∀ x, Relation.ReflTransGen (fun a b => t.containingType a = some b) ⟨4⟩ x →
        t.Admits far.module (far.StandsInside t) (far.BelongsToFamily t) x := by
  intro t near far
  obtain ⟨-, hruns, -, haccess⟩ := accessible_iff_admitted_throughout t
  have hcontext : ∀ place, near.within = some place → t.contains place = true := by
    rintro place ⟨⟩
    decide +kernel
  have hfield : t.contains ⟨4⟩ = true := by decide +kernel
  have haround : t.enclosingTypes ⟨4⟩ = [⟨3⟩, ⟨1⟩] := by decide +kernel
  have hfamily : near.BelongsToFamily t ⟨3⟩ :=
    ⟨⟨6⟩, ⟨5⟩, rfl, .single (by decide +kernel), Or.inr (.single (by decide +kernel))⟩
  have hnear : t.isAccessible ⟨4⟩ near = true := by
    refine (haccess ⟨4⟩ near).2 fun x hx => ?_
    rw [← SymbolTable.mem_cons_enclosingTypes_iff_path, haround] at hx
    simp only [List.mem_cons, List.not_mem_nil, or_false] at hx
    obtain rfl | rfl | rfl := hx
    · exact @SymbolTable.Admits.inModuleAndFamily t _ _ _ _ ⟨3⟩ (by decide +kernel) (by decide +kernel)
        (by decide +kernel) hfamily
    · exact @SymbolTable.Admits.inModule t _ _ _ _ ⟨1⟩ (by decide +kernel) (by decide +kernel) (by decide +kernel)
    · exact .everywhere (by decide +kernel)
  have hfar : t.isAccessible ⟨4⟩ far ≠ true := by decide +kernel
  have hrun : t.AccessRun near (some ⟨4⟩) true := (hruns near hcontext ⟨4⟩ hfield true).2 hnear.symm
  exact ⟨hcontext, hfield, haround, hfamily, hrun, fun hall => hfar ((haccess ⟨4⟩ far).2 hall)⟩

end NameResolution
