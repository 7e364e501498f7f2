import NameResolution.Proofs.Results.Collecting
import NameResolution.Symbol.Declaration

/-! Results with any history. Candidates may be recorded and other results merged in whatever
order, and everything may be forgotten in between. The kind that is carried along all the while
is nonetheless the one that the two lists of the result determine. -/

namespace NameResolution.LookupResult

variable {t : SymbolTable} {r : LookupResult}

/-- The results that come from nothing by recording candidates, merging results that came about
in the same way, and forgetting what was found. -/
inductive Built (t : SymbolTable) : LookupResult → Prop where
  | empty : Built t .empty
  | addCandidate {r : LookupResult} (h : Built t r) (diagnose : Bool) (s : SymbolId) (v : Viability) :
      Built t (r.addCandidate t diagnose s v)
  | merge {r other : LookupResult} (h : Built t r) (ho : Built t other) : Built t (r.merge t other)
  | clear {r : LookupResult} (h : Built t r) : Built t r.clear

theorem Built.consistent (h : r.Built t) : r.Consistent t := by
  induction h with
  | empty => exact consistent_empty t
  | addCandidate _ diagnose s v ih => exact ih.addCandidate s v
  | merge _ _ ih iho => exact ih.merge iho
  | clear _ _ => exact consistent_empty t

/-- A single symbol is usable whatever else was turned down. -/
theorem Consistent.singleSymbol?_eq_some_iff (h : r.Consistent t) {s : SymbolId} :
    r.singleSymbol? = some s ↔ r.symbols = [s] := by
  have hviable : ∀ x, r.symbols = [x] → r.kind = .viable := by
    intro x hx
    apply h.kind_eq_viable_iff.2
    simp [hx]
  unfold singleSymbol?
  constructor
  · intro hs
    split at hs
    · next x hkind hx =>
      rw [hx, Option.some.inj hs]
    · cases hs
  · intro hs
    rw [hviable s hs, hs]

/-- The lists of a result repeat no symbol and determine its kind, however the result came
about. A result with one symbol is viable, one with several is so if they are all methods, and
without a symbol it depends on whether anything was turned down. -/
theorem kind_determined_by_lists (t : SymbolTable) (r : LookupResult) (h : r.Built t) :
    r.symbols.Nodup ∧ r.rejected.Nodup ∧
    (r.kind = .empty ↔ r.symbols = [] ∧ r.rejections = []) ∧
    (r.kind = .notViable ↔ r.symbols = [] ∧ r.rejections ≠ []) ∧
    (r.kind = .viable ↔ r.symbols.length = 1 ∨
      2 ≤ r.symbols.length ∧ ∀ s ∈ r.symbols, (t.data s).kind = .method) ∧
    (r.kind = .ambiguous ↔ 2 ≤ r.symbols.length ∧ ∃ s ∈ r.symbols, (t.data s).kind ≠ .method) ∧
    (∀ s, r.singleSymbol? = some s ↔ r.symbols = [s]) ∧
    [r.isClear, r.kind == .notViable, r.isViable, r.isAmbiguous].count true = 1 := by
  have hr := h.consistent
  have hmethod : ∀ s, (t.data s).isMethod = true ↔ (t.data s).kind = .method := fun s => beq_iff_eq
  have hother : ∀ s, (t.data s).isMethod = false ↔ (t.data s).kind ≠ .method := fun s => beq_eq_false_iff_ne
  refine ⟨hr.symbols_nodup, hr.rejected_nodup, hr.kind_eq_empty_iff, hr.kind_eq_notViable_iff, ?_, ?_,
    fun s => hr.singleSymbol?_eq_some_iff, ?_⟩
  · simp only [hr.kind_eq_viable_iff, hmethod]
  · simp only [hr.kind_eq_ambiguous_iff, hother]
  · unfold isClear isViable isAmbiguous
    cases r.kind <;> rfl

/-- Type 1 has methods 2 and 3 and a field 4. -/
def methodsAndField : SymbolTable :=
  ((Builder.start .empty).declareAll
    [.symbol { name := ⟨0⟩, kind := .typeDecl .classType, container := some ⟨0⟩ },
      .symbol { name := ⟨1⟩, kind := .method, container := some ⟨1⟩ },
      .symbol { name := ⟨1⟩, kind := .method, container := some ⟨1⟩ },
      .symbol { name := ⟨1⟩, kind := .field, container := some ⟨1⟩ }]).table

/-- The field joins the methods late, after it was turned down and that was forgotten. -/
theorem kind_determined_by_lists_lateField :
    let t := methodsAndField
    let inherited := (LookupResult.empty.addCandidate t true ⟨3⟩ .viable).addCandidate t true ⟨4⟩ .viable
    let r := ((LookupResult.empty.addCandidate t false ⟨4⟩ (.notViable .inaccessible)).clear.addCandidate
      t true ⟨2⟩ .viable).merge t inherited
    r.Built t ∧ r.symbols = [⟨2⟩, ⟨3⟩, ⟨4⟩] ∧ r.rejections = [] ∧ r.kind = .ambiguous ∧
      r.singleSymbol? ≠ some ⟨2⟩ := by
  intro t inherited r
  have hinherited : inherited.Built t := (Built.empty.addCandidate true ⟨3⟩ .viable).addCandidate true ⟨4⟩ .viable
  have hbuilt : r.Built t :=
    ((Built.empty.addCandidate false ⟨4⟩ (.notViable .inaccessible)).clear.addCandidate true ⟨2⟩ .viable).merge
      hinherited
  have hsymbols : r.symbols = [⟨2⟩, ⟨3⟩, ⟨4⟩] := by decide +kernel
  obtain ⟨-, -, -, -, -, hambiguous, hsingle, -⟩ := kind_determined_by_lists t r hbuilt
  refine ⟨hbuilt, hsymbols, by decide +kernel, hambiguous.2 ?_, ?_⟩
  · rw [hsymbols]
    exact ⟨by decide, ⟨4⟩, by decide, by decide +kernel⟩
  · rw [Ne, hsingle, hsymbols]
    decide

end NameResolution.LookupResult
