import NameResolution.Lookup.Viability
import NameResolution.Proofs.Access.Rules

/-! References that move further inside. Whatever can be used in a module can be used inside each
type of it, and whatever can be used in a type can be used in everything nested in it: private
access looks at all containers of the reference and protected access at the types among them, and
neither loses any of them on the way inside. -/

namespace NameResolution

variable {t : SymbolTable} {context context' : LookupContext}

namespace LookupContext

/-- The second reference stands in the same module as the first and further inside. -/
inductive Deepens (t : SymbolTable) : LookupContext → LookupContext → Prop where
  | enter (m : ModuleId) (ty : SymbolId) : Deepens t ⟨m, none⟩ ⟨m, some ty⟩
  | nest (m : ModuleId) {ty place : SymbolId} (htype : (t.data ty).isType = true)
      (hplace : t.isNestedIn place ty = true) : Deepens t ⟨m, some ty⟩ ⟨m, some place⟩

namespace Deepens

variable (h : Deepens t context context')
include h

theorem module_eq : context'.module = context.module := by
  cases h <;> rfl

theorem isWithin_mono {owner : SymbolId} (hin : context.isWithin t owner = true) :
    context'.isWithin t owner = true := by
  cases h with
  | enter m ty => cases hin
  | nest m htype hplace => exact SymbolTable.isNestedIn_trans hplace hin

theorem isWithinFamily_mono {owner : SymbolId} (hin : context.isWithinFamily t owner = true) :
    context'.isWithinFamily t owner = true := by
  cases h with
  | enter m ty => cases hin
  | nest m htype hplace =>
    obtain ⟨x, hx, howner⟩ := List.any_eq_true.1 hin
    exact List.any_eq_true.2 ⟨x, SymbolTable.cons_enclosingTypes_subset htype hplace hx, howner⟩

theorem isPermitted_mono {s : SymbolId} (hs : t.isPermitted s context = true) :
    t.isPermitted s context' = true := by
  rw [SymbolTable.isPermitted_iff] at hs ⊢
  rw [h.module_eq]
  exact hs.mono (fun _ => h.isWithin_mono) fun _ => h.isWithinFamily_mono

theorem isAccessible_mono {s : SymbolId} (hs : t.isAccessible s context = true) :
    t.isAccessible s context' = true := by
  rw [SymbolTable.isAccessible, List.all_eq_true] at hs ⊢
  exact fun x hx => h.isPermitted_mono (hs x hx)

end Deepens

end LookupContext

/-- Only access depends on where the reference stands. -/
theorem LookupContext.Deepens.viable_mono (h : context.Deepens t context') {query : ScopeQuery} {s : SymbolId}
    (hs : { query with context }.check t s = .viable) : { query with context := context' }.check t s = .viable := by
  rw [ScopeQuery.check_eq_viable_iff] at hs ⊢
  obtain ⟨hinvocable, hkind, hinstance, harity, haccess⟩ := hs
  exact ⟨hinvocable, hkind, hinstance, harity, h.isAccessible_mono haccess⟩

/-- Access is not lost on the way into a type nor on the way further inside it, so a candidate that is
viable in a type is viable in whatever is nested there. -/
theorem access_kept_further_inside (t : SymbolTable) (s : SymbolId) (m : ModuleId) (ty place : SymbolId)
    (htype : (t.data ty).isType = true) (hplace : t.isNestedIn place ty = true) :
    (t.isAccessible s ⟨m, none⟩ = true → t.isAccessible s ⟨m, some ty⟩ = true) ∧
    (t.isAccessible s ⟨m, some ty⟩ = true → t.isAccessible s ⟨m, some place⟩ = true) ∧
    ∀ query : ScopeQuery, { query with context := ⟨m, some ty⟩ }.check t s = .viable →
      { query with context := ⟨m, some place⟩ }.check t s = .viable := by
  have hnest := LookupContext.Deepens.nest m htype hplace
  exact ⟨(LookupContext.Deepens.enter m ty).isAccessible_mono, hnest.isAccessible_mono, fun _ => hnest.viable_mono⟩

/-- Type 3 is declared in a method of type 1, which derives from type 4 of another module. -/
def protectedFieldAndLocalType : SymbolTable :=
  ((Builder.start .empty).declareAll
    [.typeIn ⟨0⟩ "Outer" .classType 0, .memberIn ⟨1⟩ "M" .method .publicAccess,
      .symbol { name := ⟨2⟩, kind := .typeDecl .classType, container := some ⟨2⟩ },
      .symbol { name := ⟨2⟩, kind := .typeDecl .classType, container := some ⟨0⟩, module := ⟨1⟩ },
      .memberIn ⟨4⟩ "x" .field .protectedAccess, .base ⟨1⟩ ⟨4⟩]).table

/-- The inherited field can be used in the nested type, although that type derives from nothing. -/
theorem access_kept_further_inside_localType :
    let t := protectedFieldAndLocalType
    let query : ScopeQuery := ⟨⟨3⟩, 0, {}, ⟨⟨0⟩, some ⟨1⟩⟩, true⟩
    (t.data ⟨1⟩).isType = true ∧ t.isNestedIn ⟨3⟩ ⟨1⟩ = true ∧ t.isAccessible ⟨5⟩ ⟨⟨0⟩, none⟩ = false ∧
      t.isAccessible ⟨5⟩ ⟨⟨0⟩, some ⟨1⟩⟩ = true ∧ t.isAccessible ⟨5⟩ ⟨⟨0⟩, some ⟨3⟩⟩ = true ∧
      { query with context := ⟨⟨0⟩, some ⟨3⟩⟩ }.check t ⟨5⟩ = .viable := by
  intro t query
  have htype : (t.data ⟨1⟩).isType = true := by decide +kernel
  have hplace : t.isNestedIn ⟨3⟩ ⟨1⟩ = true := by decide +kernel
  have hfamily : query.context.isWithinFamily t ⟨4⟩ = true :=
    LookupContext.isWithinFamily_iff.2 ⟨⟨1⟩, ⟨1⟩, rfl, .refl, Or.inr (.single (by decide +kernel))⟩
  have hfield : t.isPermitted ⟨5⟩ query.context = true :=
    SymbolTable.isPermitted_iff.2 (.inFamily (by decide +kernel) (by decide +kernel) hfamily)
  have hbase : t.isPermitted ⟨4⟩ query.context = true := by decide +kernel
  have haccess : t.isAccessible ⟨5⟩ query.context = true := by
    have haround : t.enclosingTypes ⟨5⟩ = [⟨4⟩] := by decide +kernel
    rw [SymbolTable.isAccessible, haround]
    simp [hfield, hbase]
  have hcheck : query.check t ⟨5⟩ = .viable := ScopeQuery.check_eq_viable_iff.2
    ⟨by decide, by decide, by decide, by decide, haccess⟩
  obtain ⟨-, hinside, hviable⟩ := access_kept_further_inside t ⟨5⟩ ⟨0⟩ ⟨1⟩ ⟨3⟩ htype hplace
  exact ⟨htype, hplace, by decide +kernel, haccess, hinside haccess, hviable query hcheck⟩

end NameResolution
