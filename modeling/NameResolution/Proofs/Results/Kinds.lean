import NameResolution.Proofs.Results.Consistency

/-! The kinds of results. In a consistent result the kind tells how many symbols there are,
whether they are overloads of one another, and whether anything was turned down. -/

namespace NameResolution.LookupResult

variable {t : SymbolTable} {r : LookupResult}

namespace Consistent

theorem kind_eq_empty_iff (h : r.Consistent t) : r.kind = .empty ↔ r.symbols = [] ∧ r.rejections = [] := by
  rw [h.kind_eq]
  rcases r.symbols with _ | ⟨a, _ | ⟨b, rest⟩⟩
  · cases r.rejections <;> simp [kindOf]
  · simp [kindOf]
  · simp only [kindOf]
    split <;> simp

theorem isClear_iff (h : r.Consistent t) : r.isClear = true ↔ r.symbols = [] ∧ r.rejections = [] := by
  rw [isClear, beq_iff_eq, h.kind_eq_empty_iff]

theorem kind_eq_notViable_iff (h : r.Consistent t) :
    r.kind = .notViable ↔ r.symbols = [] ∧ r.rejections ≠ [] := by
  rw [h.kind_eq]
  rcases r.symbols with _ | ⟨a, _ | ⟨b, rest⟩⟩
  · cases r.rejections <;> simp [kindOf]
  · simp [kindOf]
  · simp only [kindOf]
    split <;> simp

/-- A viable result has one symbol or overloads of a method. -/
theorem kind_eq_viable_iff (h : r.Consistent t) : r.kind = .viable ↔
    r.symbols.length = 1 ∨ 2 ≤ r.symbols.length ∧ ∀ s ∈ r.symbols, (t.data s).isMethod = true := by
  rw [h.kind_eq]
  rcases r.symbols with _ | ⟨a, _ | ⟨b, rest⟩⟩
  · cases r.rejections <;> simp [kindOf]
  · simp [kindOf]
  · have hone : (a :: b :: rest).length ≠ 1 := by simp
    have htwo : 2 ≤ (a :: b :: rest).length := by simp
    simp only [kindOf, hone, htwo, false_or, true_and, ite_eq_left_iff, reduceCtorEq, imp_false, not_not,
      List.all_eq_true]

/-- Symbols of which one is no method are no overloads. -/
theorem kind_eq_ambiguous_iff (h : r.Consistent t) : r.kind = .ambiguous ↔
    2 ≤ r.symbols.length ∧ ∃ s ∈ r.symbols, (t.data s).isMethod = false := by
  rw [h.kind_eq]
  rcases r.symbols with _ | ⟨a, _ | ⟨b, rest⟩⟩
  · cases r.rejections <;> simp [kindOf]
  · simp [kindOf]
  · have htwo : 2 ≤ (a :: b :: rest).length := by simp
    have hsome : (∃ s ∈ a :: b :: rest, (t.data s).isMethod = false) ↔
        ¬ (a :: b :: rest).all (fun x => (t.data x).isMethod) = true := by
      rw [Bool.not_eq_true, List.all_eq_false]
      simp only [Bool.not_eq_true]
    rw [hsome]
    simp only [kindOf, htwo, true_and, ite_eq_right_iff, reduceCtorEq, imp_false]

end Consistent

/-- The kind of a result fits the symbols and rejections in it. -/
structure KindFits (t : SymbolTable) (r : LookupResult) : Prop where
  empty : r.kind = .empty → r.symbols = [] ∧ r.rejections = []
  notViable : r.kind = .notViable → r.symbols = [] ∧ r.rejections ≠ []
  viable : r.kind = .viable → (∃ s, r.symbols = [s]) ∨
    2 ≤ r.symbols.length ∧ r.symbols.Nodup ∧ ∀ s ∈ r.symbols, (t.data s).isMethod = true
  ambiguous : r.kind = .ambiguous →
    2 ≤ r.symbols.length ∧ r.symbols.Nodup ∧ ∃ s ∈ r.symbols, (t.data s).isMethod = false

theorem Consistent.kindFits (h : r.Consistent t) : r.KindFits t where
  empty := h.kind_eq_empty_iff.1
  notViable := h.kind_eq_notViable_iff.1
  viable hkind := by
    rcases h.kind_eq_viable_iff.1 hkind with hone | ⟨htwo, hmethods⟩
    · exact Or.inl (List.length_eq_one_iff.1 hone)
    · exact Or.inr ⟨htwo, h.symbols_nodup, hmethods⟩
  ambiguous hkind := by
    obtain ⟨htwo, hother⟩ := h.kind_eq_ambiguous_iff.1 hkind
    exact ⟨htwo, h.symbols_nodup, hother⟩

end NameResolution.LookupResult
