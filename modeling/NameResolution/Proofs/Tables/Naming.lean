import NameResolution.Proofs.Tables.Building

/-! The names of symbols. Every symbol of a built table has a name of the interner that the table
was built with, so the symbol keeps its text however many further texts are interned. -/

namespace NameResolution.Builder

variable {b : Builder}

/-- The data that a declaration gives a symbol have a name that is interned already. -/
def knowsName (b : Builder) : Declaration → Bool
  | .symbol data => (b.names.text? data.name).isSome
  | _ => true

/-- The symbols of the table have names of the interner. -/
def NamesInterned (b : Builder) : Prop :=
  ∀ s, b.table.contains s = true → (b.names.text? (b.table.data s).name).isSome = true

theorem namesInterned_start (names : Interner) : (Builder.start names).NamesInterned := by
  intro s hs
  obtain ⟨_ | i⟩ := s
  · exact Option.isSome_iff_exists.2 ⟨"", names.text?_intern_self ""⟩
  · rw [SymbolTable.contains, decide_eq_true_eq] at hs
    exact absurd (Nat.lt_of_succ_lt_succ hs) (Nat.not_lt_zero i)

theorem NamesInterned.name (h : b.NamesInterned) (text : String) : (b.name text).2.NamesInterned :=
  fun s hs => (b.names.extendedBy_intern text).isSome_text? (h s hs)

theorem NamesInterned.add (h : b.NamesInterned) {d : SymbolData} (hd : (b.names.text? d.name).isSome = true) :
    (b.add d).2.NamesInterned := by
  intro s hs
  have hdata : (b.add d).2.table.data s = if s.index = b.table.size then b.table.placed d else b.table.data s :=
    SymbolTable.data_add b.table d s
  have hsize : (b.add d).2.table.size = b.table.size + 1 := b.table.size_add d
  rw [hdata]
  split
  · exact hd
  · apply h
    rw [SymbolTable.contains, decide_eq_true_eq] at hs ⊢
    omega

theorem NamesInterned.addBase (h : b.NamesInterned) (ty base : SymbolId) : (b.addBase ty base).NamesInterned := by
  intro s hs
  have hdata : (b.addBase ty base).table.data s = b.table.data s := b.table.data_addBase ty base s
  rw [hdata]
  apply h
  rwa [SymbolTable.contains, Builder.addBase, SymbolTable.size_addBase] at hs

theorem namesInterned_declareAll (names : Interner) {steps : List Declaration}
    (hsteps : (Builder.start names).eachStep knowsName steps = true) :
    ((Builder.start names).declareAll steps).NamesInterned := by
  refine declareAll_induction ?_ hsteps (namesInterned_start names)
  intro b step hknown hb
  refine @declare_induction b step NamesInterned hb (fun _ text hb' => hb'.name text) ?_
    fun ty base _ => hb.addBase ty base
  rintro b' d hb' (hinterned | ⟨rfl, rfl⟩)
  · exact hb'.add hinterned
  · exact hb'.add hknown

end NameResolution.Builder
