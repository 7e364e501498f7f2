import NameResolution.Lookup.Result
import NameResolution.Proofs.FirstOccurrences

/-! What every result has in common however it came about: its kind is determined by its
viable symbols and its rejections, neither of which repeats a symbol. Adding a candidate
and merging another such result keep it so. -/

namespace NameResolution

namespace LookupResult

variable {t : SymbolTable}

/-- The kind that goes with a list of viable symbols and a list of rejections. -/
def kindOf (t : SymbolTable) : List SymbolId → List Rejection → ResultKind
  | [], [] => .empty
  | [], _ :: _ => .notViable
  | [_], _ => .viable
  | s :: s' :: rest, _ =>
    if (s :: s' :: rest).all fun x => (t.data x).isMethod then .viable else .ambiguous

/-- The kind is in step with the lists, and no list repeats a symbol. -/
structure Consistent (t : SymbolTable) (r : LookupResult) : Prop where
  symbols_nodup : r.symbols.Nodup
  rejected_nodup : r.rejected.Nodup
  kind_eq : r.kind = kindOf t r.symbols r.rejections

theorem consistent_empty (t : SymbolTable) : empty.Consistent t :=
  ⟨List.nodup_nil, List.nodup_nil, rfl⟩

/-- Consistent results are determined by their lists. -/
theorem Consistent.ext {r r' : LookupResult} (h : r.Consistent t) (h' : r'.Consistent t)
    (hs : r.symbols = r'.symbols) (hr : r.rejections = r'.rejections) : r = r' := by
  have hk : r.kind = r'.kind := by rw [h.kind_eq, h'.kind_eq, hs, hr]
  cases r; cases r'
  simp_all

/-- Of a table only the data of the symbols matter. -/
theorem kindOf_congr {t' : SymbolTable} {symbols : List SymbolId} (h : ∀ s ∈ symbols, t'.data s = t.data s)
    (rejections : List Rejection) : kindOf t' symbols rejections = kindOf t symbols rejections := by
  rcases symbols with _ | ⟨a, _ | ⟨b, rest⟩⟩
  · cases rejections <;> rfl
  · rfl
  · have hmethods : ((a :: b :: rest).all fun x => (t'.data x).isMethod) =
        (a :: b :: rest).all fun x => (t.data x).isMethod := by
      rw [Bool.eq_iff_iff, List.all_eq_true, List.all_eq_true]
      exact forall₂_congr fun x hx => by rw [h x hx]
    rw [kindOf, hmethods, kindOf]

theorem Consistent.congr {t' : SymbolTable} {r : LookupResult} (h : r.Consistent t')
    (hdata : ∀ s ∈ r.symbols, t'.data s = t.data s) : r.Consistent t :=
  ⟨h.symbols_nodup, h.rejected_nodup, h.kind_eq.trans (kindOf_congr hdata r.rejections)⟩

/-! ### Adding one candidate -/

theorem symbols_addViable (r : LookupResult) (s : SymbolId) :
    (r.addViable t s).symbols = r.symbols ++ newByKey id r.symbols [s] := by
  unfold addViable
  split
  · next hs => rw [newByKey_cons_of_mem hs, newByKey_nil, List.append_nil]
  · next hs => rw [newByKey_cons_of_not_mem hs, newByKey_nil]

@[simp] theorem rejections_addViable (r : LookupResult) (s : SymbolId) :
    (r.addViable t s).rejections = r.rejections := by
  unfold addViable
  split <;> rfl

@[simp] theorem symbols_addRejection (r : LookupResult) (x : Rejection) :
    (r.addRejection x).symbols = r.symbols := by
  unfold addRejection
  split <;> rfl

theorem rejections_addRejection (r : LookupResult) (x : Rejection) :
    (r.addRejection x).rejections = r.rejections ++ newByKey Rejection.symbol r.rejected [x] := by
  unfold addRejection
  split
  · next hx => rw [newByKey_cons_of_mem hx, newByKey_nil, List.append_nil]
  · next hx => rw [newByKey_cons_of_not_mem hx, newByKey_nil]

theorem kindOf_append_singleton (symbols : List SymbolId) (rejections : List Rejection) (s : SymbolId) :
    kindOf t (symbols ++ [s]) rejections = match kindOf t symbols rejections with
      | .empty | .notViable => .viable
      | .viable => if (s :: symbols).all fun x => (t.data x).isMethod then .viable else .ambiguous
      | .ambiguous => .ambiguous := by
  rcases symbols with _ | ⟨a, _ | ⟨b, rest⟩⟩
  · cases rejections <;> rfl
  · simp only [kindOf, List.cons_append, List.nil_append, List.all_cons, List.all_nil, Bool.and_true]
    rw [Bool.and_comm]
  · simp only [kindOf, List.cons_append]
    by_cases h : (a :: b :: rest).all fun x => (t.data x).isMethod
    · rw [if_pos h]
      simp only [List.all_cons, List.all_append, List.all_nil, Bool.and_true, Bool.and_eq_true] at h ⊢
      simp [h]
    · rw [if_neg h]
      simp only [List.all_cons, List.all_append, List.all_nil, Bool.and_true, Bool.and_eq_true] at h ⊢
      rw [if_neg fun hc => h ⟨hc.1, hc.2.1, hc.2.2.1⟩]

theorem kindOf_append_rejection (symbols : List SymbolId) (rejections : List Rejection) (x : Rejection) :
    kindOf t symbols (rejections ++ [x]) =
      if kindOf t symbols rejections = .empty then .notViable else kindOf t symbols rejections := by
  rcases symbols with _ | ⟨a, _ | ⟨b, rest⟩⟩
  · cases rejections <;> rfl
  · simp [kindOf]
  · simp only [kindOf]
    split <;> simp

theorem Consistent.addViable {r : LookupResult} (h : r.Consistent t) (s : SymbolId) :
    (r.addViable t s).Consistent t := by
  by_cases hs : s ∈ r.symbols
  · rwa [LookupResult.addViable, if_pos hs]
  · have hsymbols : (r.addViable t s).symbols = r.symbols ++ [s] := by
      rw [symbols_addViable, newByKey_cons_of_not_mem hs, newByKey_nil]
    refine ⟨?_, ?_, ?_⟩
    · rw [hsymbols]
      exact List.Nodup.append h.symbols_nodup (List.nodup_singleton s) (by simpa using hs)
    · rw [rejected, rejections_addViable]
      exact h.rejected_nodup
    · rw [hsymbols, rejections_addViable, kindOf_append_singleton, ← h.kind_eq]
      cases hkind : r.kind <;> simp only [LookupResult.addViable, if_neg hs, hkind]

theorem Consistent.addRejection {r : LookupResult} (h : r.Consistent t) (x : Rejection) :
    (r.addRejection x).Consistent t := by
  by_cases hx : x.symbol ∈ r.rejected
  · rwa [LookupResult.addRejection, if_pos hx]
  · have hrejections : (r.addRejection x).rejections = r.rejections ++ [x] := by
      rw [rejections_addRejection, newByKey_cons_of_not_mem hx, newByKey_nil]
    refine ⟨?_, ?_, ?_⟩
    · rw [symbols_addRejection]
      exact h.symbols_nodup
    · have hnew : x.symbol ∉ r.rejections.map Rejection.symbol := hx
      rw [rejected, hrejections, List.map_append]
      exact List.Nodup.append h.rejected_nodup (List.nodup_singleton _) (by simpa using hnew)
    · rw [symbols_addRejection, hrejections, kindOf_append_rejection, ← h.kind_eq]
      simp only [LookupResult.addRejection, if_neg hx]

/-! ### Merging -/

theorem symbols_foldl_addViable (r : LookupResult) (symbols : List SymbolId) :
    (symbols.foldl (LookupResult.addViable t) r).symbols = r.symbols ++ newByKey id r.symbols symbols := by
  have hstep : ∀ (r : LookupResult) (s : SymbolId), (r.addViable t s).symbols =
      r.symbols ++ newByKey id (r.symbols.map id) (some s).toList := by
    intro r s
    rw [List.map_id]
    exact symbols_addViable r s
  have h := foldl_append_newByKey hstep r symbols
  rwa [List.map_id, List.filterMap_some] at h

theorem rejections_foldl_addViable (r : LookupResult) (symbols : List SymbolId) :
    (symbols.foldl (LookupResult.addViable t) r).rejections = r.rejections := by
  induction symbols generalizing r with
  | nil => rfl
  | cons s symbols ih => rw [List.foldl_cons, ih, rejections_addViable]

theorem symbols_foldl_addRejection (r : LookupResult) (rejections : List Rejection) :
    (rejections.foldl LookupResult.addRejection r).symbols = r.symbols := by
  induction rejections generalizing r with
  | nil => rfl
  | cons x rejections ih => rw [List.foldl_cons, ih, symbols_addRejection]

theorem rejections_foldl_addRejection (r : LookupResult) (rejections : List Rejection) :
    (rejections.foldl LookupResult.addRejection r).rejections =
      r.rejections ++ newByKey Rejection.symbol r.rejected rejections := by
  have hstep : ∀ (r : LookupResult) (x : Rejection), (r.addRejection x).rejections =
      r.rejections ++ newByKey Rejection.symbol r.rejected (some x).toList := rejections_addRejection
  have h := foldl_append_newByKey hstep r rejections
  rwa [List.filterMap_some] at h

theorem symbols_merge (r other : LookupResult) :
    (r.merge t other).symbols = r.symbols ++ newByKey id r.symbols other.symbols := by
  have h : (r.merge t other).symbols =
      (other.symbols.foldl (LookupResult.addViable t) (other.rejections.foldl addRejection r)).symbols := by
    unfold merge
    split <;> rfl
  rw [h, symbols_foldl_addViable, symbols_foldl_addRejection]

theorem rejections_merge (r other : LookupResult) :
    (r.merge t other).rejections =
      r.rejections ++ newByKey Rejection.symbol r.rejected other.rejections := by
  have h : (r.merge t other).rejections =
      (other.symbols.foldl (LookupResult.addViable t) (other.rejections.foldl addRejection r)).rejections := by
    unfold merge
    split <;> rfl
  rw [h, rejections_foldl_addViable, rejections_foldl_addRejection]

/-- An ambiguous result has two viable symbols that are not both methods. -/
theorem kindOf_eq_ambiguous_iff {symbols : List SymbolId} {rejections : List Rejection}
    (hnodup : symbols.Nodup) : kindOf t symbols rejections = .ambiguous ↔
      ∃ a ∈ symbols, ∃ b ∈ symbols, a ≠ b ∧ (t.data a).isMethod = false := by
  rcases symbols with _ | ⟨a, _ | ⟨b, rest⟩⟩
  · cases rejections <;> simp [kindOf]
  · simp [kindOf]
  · simp only [kindOf, ite_eq_right_iff, reduceCtorEq, imp_false, List.all_eq_true, not_forall,
      Bool.not_eq_true, exists_prop]
    constructor
    · rintro ⟨x, hx, hmethod⟩
      by_cases hxa : x = a
      · refine ⟨x, hx, b, by simp, ?_, hmethod⟩
        rw [hxa]
        exact fun h => (List.nodup_cons.1 hnodup).1 (h ▸ List.mem_cons_self)
      · exact ⟨x, hx, a, by simp, hxa, hmethod⟩
    · rintro ⟨x, hx, -, -, -, hmethod⟩
      exact ⟨x, hx, hmethod⟩

/-- A merged result is ambiguous by its own symbols whenever the other one is. -/
theorem Consistent.merge {r other : LookupResult} (h : r.Consistent t) (ho : other.Consistent t) :
    (r.merge t other).Consistent t := by
  have hrej : ∀ xs : List Rejection, (xs.foldl LookupResult.addRejection r).Consistent t := by
    intro xs
    exact List.foldlRecOn xs _ h fun r hr x _ => hr.addRejection x
  have hadd : ∀ ss : List SymbolId,
      (ss.foldl (LookupResult.addViable t) (other.rejections.foldl LookupResult.addRejection r)).Consistent t := by
    intro ss
    exact List.foldlRecOn ss _ (hrej _) fun r hr s _ => hr.addViable s
  have hmerged := hadd other.symbols
  by_cases hk : other.kind = .ambiguous
  · have hsym := symbols_merge (t := t) r other
    have hrejs := rejections_merge (t := t) r other
    simp only [LookupResult.merge, if_pos hk] at hsym hrejs ⊢
    refine ⟨hmerged.symbols_nodup, hmerged.rejected_nodup, ?_⟩
    refine ((kindOf_eq_ambiguous_iff hmerged.symbols_nodup).2 ?_).symm
    obtain ⟨a, ha, b, hb, hne, hmethod⟩ :=
      (kindOf_eq_ambiguous_iff ho.symbols_nodup).1 (ho.kind_eq.symm.trans hk)
    have hsub : ∀ x ∈ other.symbols, x ∈ r.symbols ++ newByKey id r.symbols other.symbols := by
      intro x hx
      by_cases hxr : x ∈ r.symbols
      · exact List.mem_append_left _ hxr
      · exact List.mem_append_right _ (mem_newByKey.2 ⟨hx, hxr⟩)
    rw [hsym]
    exact ⟨a, hsub a ha, b, hsub b hb, hne, hmethod⟩
  · simpa only [LookupResult.merge, if_neg hk] using hmerged

end LookupResult

end NameResolution
