import NameResolution.Symbol.Table

/-! The graph of base types, which may have diamonds and cycles. One walk, depth first
and visiting each type once, answers which types a type derives from. -/

namespace NameResolution.SymbolTable

/-- The number of symbols of the table outside a list. -/
def unseen (t : SymbolTable) (seen : List SymbolId) : Nat :=
  t.ids.countP fun s => decide (s ∉ seen)

theorem mem_ids {t : SymbolTable} {s : SymbolId} : s ∈ t.ids ↔ s.index < t.size := by
  simp only [ids, List.mem_map, List.mem_range]
  exact ⟨fun ⟨i, hi, he⟩ => he ▸ hi, fun h => ⟨s.index, h, rfl⟩⟩

theorem unseen_cons_le (t : SymbolTable) (s : SymbolId) (seen : List SymbolId) :
    t.unseen (s :: seen) ≤ t.unseen seen := by
  apply List.countP_mono_left
  intro x _ hx
  simp only [List.mem_cons, not_or, decide_eq_true_eq] at hx ⊢
  exact hx.2

theorem unseen_cons_lt {t : SymbolTable} {s : SymbolId} {seen : List SymbolId}
    (hs : s.index < t.size) (hnew : s ∉ seen) : t.unseen (s :: seen) < t.unseen seen := by
  suffices ∀ xs : List SymbolId, s ∈ xs →
      xs.countP (fun x => decide (x ∉ s :: seen)) < xs.countP (fun x => decide (x ∉ seen)) from
    this _ (mem_ids.2 hs)
  intro xs hmem
  induction xs with
  | nil => cases hmem
  | cons x xs ih =>
    have hle : xs.countP (fun x => decide (x ∉ s :: seen)) ≤ xs.countP (fun x => decide (x ∉ seen)) := by
      apply List.countP_mono_left
      intro y _ hy
      simp only [List.mem_cons, not_or, decide_eq_true_eq] at hy ⊢
      exact hy.2
    by_cases hx : x = s
    · subst hx
      simp [hnew]
      simpa using Nat.lt_succ_of_le hle
    · have := ih ((List.mem_cons.1 hmem).resolve_left (Ne.symm hx))
      by_cases hseen : x ∈ seen
      · simpa [hx, hseen] using this
      · simpa [hx, hseen] using this

/-- The types met from `pending` along base types, each once and in depth-first order.
Types in `seen` are not entered, and the bases of a type are followed only if `follows`
says so. -/
def walkBases (t : SymbolTable) (follows : SymbolId → Bool) (pending seen : List SymbolId) :
    List SymbolId :=
  match pending with
  | [] => []
  | ty :: rest =>
    if ty ∈ seen then t.walkBases follows rest seen
    else ty :: t.walkBases follows ((if follows ty then t.bases ty else []) ++ rest) (ty :: seen)
termination_by (t.unseen seen, pending.length)
decreasing_by
  · exact Prod.Lex.right _ (Nat.lt_succ_self _)
  · by_cases hs : ty.index < t.size
    · exact Prod.Lex.left _ _ (unseen_cons_lt hs ‹_›)
    · rw [bases_eq_nil_of_size_le (Nat.le_of_not_lt hs)]
      rcases Nat.lt_or_eq_of_le (t.unseen_cons_le ty seen) with h | h
      · exact Prod.Lex.left _ _ h
      · rw [h]
        exact Prod.Lex.right _ (by simp)

/-- A type and all types it derives from, in depth-first order. -/
def withBases (t : SymbolTable) (ty : SymbolId) : List SymbolId :=
  t.walkBases (fun _ => true) [ty] []

/-- Some path of one or more steps from a type to a direct base leads to `base`. -/
def derivesFrom (t : SymbolTable) (ty base : SymbolId) : Bool :=
  (t.walkBases (fun _ => true) (t.bases ty) []).contains base

end NameResolution.SymbolTable
