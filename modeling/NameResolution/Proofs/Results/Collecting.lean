import NameResolution.Proofs.Results.Kinds

/-! Results that are collected candidate by candidate. Such a result lists the first
occurrence of every viable candidate and of every rejected one, and merging two collected
results is the same as collecting all their candidates at once. -/

namespace NameResolution

namespace LookupResult

variable {t : SymbolTable} {diagnose : Bool}

/-- The result after one candidate after another was added to nothing. -/
def collect (t : SymbolTable) (diagnose : Bool) (found : List (SymbolId × Viability)) : LookupResult :=
  found.foldl (fun r c => r.addCandidate t diagnose c.1 c.2) empty

/-- The candidate, if it is viable. -/
def accepted? : SymbolId × Viability → Option SymbolId
  | (s, .viable) => some s
  | (_, .notViable _) => none

/-- The rejection of the candidate, if it is not viable. -/
def rejection? (diagnose : Bool) : SymbolId × Viability → Option Rejection
  | (_, .viable) => none
  | (s, .notViable reason) => some ⟨s, if diagnose then some reason else none⟩

theorem Consistent.addCandidate {r : LookupResult} (h : r.Consistent t) (s : SymbolId) (v : Viability) :
    (r.addCandidate t diagnose s v).Consistent t := by
  cases v with
  | viable => exact h.addViable s
  | notViable reason => exact h.addRejection _

theorem consistent_collect (t : SymbolTable) (diagnose : Bool) (found : List (SymbolId × Viability)) :
    (collect t diagnose found).Consistent t :=
  List.foldlRecOn found _ (consistent_empty t) fun _ hr c _ => hr.addCandidate c.1 c.2

theorem symbols_addCandidate (r : LookupResult) (c : SymbolId × Viability) :
    (r.addCandidate t diagnose c.1 c.2).symbols = r.symbols ++ newByKey id r.symbols (accepted? c).toList := by
  obtain ⟨s, v⟩ := c
  cases v with
  | viable => exact symbols_addViable r s
  | notViable reason =>
    have hkept := symbols_addRejection r ⟨s, if diagnose then some reason else none⟩
    exact hkept.trans (List.append_nil _).symm

theorem rejections_addCandidate (r : LookupResult) (c : SymbolId × Viability) :
    (r.addCandidate t diagnose c.1 c.2).rejections =
      r.rejections ++ newByKey Rejection.symbol r.rejected (rejection? diagnose c).toList := by
  obtain ⟨s, v⟩ := c
  cases v with
  | viable =>
    have hkept := rejections_addViable (t := t) r s
    exact hkept.trans (List.append_nil _).symm
  | notViable reason => exact rejections_addRejection r ⟨s, if diagnose then some reason else none⟩

theorem foldl_addCandidate (r : LookupResult) (found : List (SymbolId × Viability)) :
    (found.foldl (fun r c => r.addCandidate t diagnose c.1 c.2) r).symbols =
        r.symbols ++ newByKey id r.symbols (found.filterMap accepted?) ∧
      (found.foldl (fun r c => r.addCandidate t diagnose c.1 c.2) r).rejections =
        r.rejections ++ newByKey Rejection.symbol r.rejected (found.filterMap (rejection? diagnose)) := by
  have hstep : ∀ (r : LookupResult) (c : SymbolId × Viability), (r.addCandidate t diagnose c.1 c.2).symbols =
      r.symbols ++ newByKey id (r.symbols.map id) (accepted? c).toList := by
    intro r c
    rw [List.map_id]
    exact symbols_addCandidate r c
  have hsymbols := foldl_append_newByKey hstep r found
  rw [List.map_id] at hsymbols
  exact ⟨hsymbols, foldl_append_newByKey rejections_addCandidate r found⟩

theorem symbols_collect (found : List (SymbolId × Viability)) :
    (collect t diagnose found).symbols = newByKey id [] (found.filterMap accepted?) :=
  (foldl_addCandidate empty found).1

theorem rejections_collect (found : List (SymbolId × Viability)) :
    (collect t diagnose found).rejections =
      newByKey Rejection.symbol [] (found.filterMap (rejection? diagnose)) :=
  (foldl_addCandidate empty found).2

theorem collect_append (xs ys : List (SymbolId × Viability)) : collect t diagnose (xs ++ ys) =
    ys.foldl (fun r c => r.addCandidate t diagnose c.1 c.2) (collect t diagnose xs) :=
  List.foldl_append

/-- What the other result has dropped as a repetition would be dropped here as well. -/
theorem merge_collect (xs ys : List (SymbolId × Viability)) :
    (collect t diagnose xs).merge t (collect t diagnose ys) = collect t diagnose (xs ++ ys) := by
  have hx := consistent_collect t diagnose xs
  apply (hx.merge (consistent_collect t diagnose ys)).ext (consistent_collect t diagnose (xs ++ ys))
  · rw [symbols_merge, symbols_collect ys, newByKey_newByKey (List.nil_subset _), collect_append,
      (foldl_addCandidate _ _).1]
  · rw [rejections_merge, rejections_collect ys, newByKey_newByKey (List.nil_subset _), collect_append,
      (foldl_addCandidate _ _).2]

/-- Only a search without any candidate finds nothing. -/
theorem isClear_collect_iff {found : List (SymbolId × Viability)} :
    (collect t diagnose found).isClear = true ↔ found = [] := by
  rw [(consistent_collect t diagnose found).isClear_iff, symbols_collect, rejections_collect,
    newByKey_eq_nil_iff, newByKey_eq_nil_iff]
  constructor
  · rintro ⟨hs, hr⟩
    rcases found with _ | ⟨⟨s, v⟩, found⟩
    · rfl
    · cases v with
      | viable => exact absurd (hs s (by simp [accepted?])) List.not_mem_nil
      | notViable reason =>
        exact absurd (hr _ (List.mem_filterMap.2 ⟨_, List.mem_cons_self, rfl⟩)) List.not_mem_nil
  · rintro rfl
    simp

end LookupResult

/-! ### Candidates of a query -/

/-- The candidates with what the query says about each of them. -/
def ScopeQuery.classify (query : ScopeQuery) (t : SymbolTable) (candidates : List SymbolId) :
    List (SymbolId × Viability) :=
  candidates.map fun s => (s, query.check t s)

/-- The rejection of a candidate that the query turns down. -/
def ScopeQuery.rejection? (query : ScopeQuery) (t : SymbolTable) (s : SymbolId) : Option Rejection :=
  match query.check t s with
  | .viable => none
  | .notViable reason => some ⟨s, if query.diagnose then some reason else none⟩

namespace LookupResult

variable {t : SymbolTable} {query : ScopeQuery}

/-- The result that consists of the given candidates. -/
def ofCandidates (t : SymbolTable) (query : ScopeQuery) (candidates : List SymbolId) : LookupResult :=
  collect t query.diagnose (query.classify t candidates)

theorem ofCandidates_append (xs ys : List SymbolId) : ofCandidates t query (xs ++ ys) =
    ys.foldl (fun r s => r.addCandidate t query.diagnose s (query.check t s)) (ofCandidates t query xs) := by
  rw [ofCandidates, ScopeQuery.classify, List.map_append, collect_append, List.foldl_map]
  rfl

theorem merge_ofCandidates (xs ys : List SymbolId) :
    (ofCandidates t query xs).merge t (ofCandidates t query ys) = ofCandidates t query (xs ++ ys) := by
  rw [ofCandidates, ofCandidates, merge_collect, ofCandidates, ScopeQuery.classify,
    ScopeQuery.classify, ScopeQuery.classify, List.map_append]

theorem isClear_ofCandidates_iff {candidates : List SymbolId} :
    (ofCandidates t query candidates).isClear = true ↔ candidates = [] := by
  rw [ofCandidates, isClear_collect_iff, ScopeQuery.classify, List.map_eq_nil_iff]

theorem symbols_ofCandidates (candidates : List SymbolId) : (ofCandidates t query candidates).symbols =
    newByKey id [] (candidates.filter fun s => query.check t s = .viable) := by
  rw [ofCandidates, symbols_collect, ScopeQuery.classify, List.filterMap_map, ← List.filterMap_eq_filter]
  congr 2
  funext s
  have h : ∀ v : Viability, accepted? (s, v) = if v = .viable then some s else none := by
    intro v
    cases v <;> rfl
  simp [h, Option.guard]

theorem rejections_ofCandidates (candidates : List SymbolId) :
    (ofCandidates t query candidates).rejections =
      newByKey Rejection.symbol [] (candidates.filterMap (query.rejection? t)) := by
  rw [ofCandidates, rejections_collect, ScopeQuery.classify, List.filterMap_map]
  congr 2
  funext s
  simp only [Function.comp_apply, ScopeQuery.rejection?]
  cases query.check t s <;> rfl

/-- Tables that say the same about the candidates give the same result. -/
theorem ofCandidates_congr {t' : SymbolTable} {candidates : List SymbolId}
    (hdata : ∀ s ∈ candidates, t'.data s = t.data s)
    (hcheck : ∀ s ∈ candidates, query.check t' s = query.check t s) :
    ofCandidates t' query candidates = ofCandidates t query candidates := by
  have hsymbols : (ofCandidates t' query candidates).symbols = (ofCandidates t query candidates).symbols := by
    rw [symbols_ofCandidates, symbols_ofCandidates, List.filter_congr fun s hs => by rw [hcheck s hs]]
  have hrejections :
      (ofCandidates t' query candidates).rejections = (ofCandidates t query candidates).rejections := by
    rw [rejections_ofCandidates, rejections_ofCandidates, List.filterMap_congr]
    intro s hs
    rw [ScopeQuery.rejection?, hcheck s hs, ScopeQuery.rejection?]
  have hconsistent : (ofCandidates t' query candidates).Consistent t := by
    apply (consistent_collect t' _ _).congr
    intro s hs
    have hmem : s ∈ (ofCandidates t' query candidates).symbols := hs
    rw [symbols_ofCandidates, mem_newByKey, List.mem_filter] at hmem
    exact hdata s hmem.1.1
  exact hconsistent.ext (consistent_collect t _ _) hsymbols hrejections

/-- A group of candidates that comes a second time adds nothing. -/
theorem ofCandidates_flatMap_newByKey {β : Type} [DecidableEq β] (f : β → List SymbolId) (bs : List β) :
    ofCandidates t query ((newByKey id [] bs).flatMap f) = ofCandidates t query (bs.flatMap f) := by
  apply (consistent_collect _ _ _).ext (consistent_collect _ _ _)
  · rw [← ofCandidates, ← ofCandidates, symbols_ofCandidates, symbols_ofCandidates, List.filter_flatMap,
      List.filter_flatMap]
    exact newByKey_flatMap_newByKey (by simp) bs
  · rw [← ofCandidates, ← ofCandidates, rejections_ofCandidates, rejections_ofCandidates,
      List.filterMap_flatMap, List.filterMap_flatMap]
    exact newByKey_flatMap_newByKey (by simp) bs

/-- The result sorts the candidates into viable and rejected ones, keeping their order and
losing or repeating none. -/
structure Partitions (t : SymbolTable) (query : ScopeQuery) (candidates : List SymbolId)
    (r : LookupResult) : Prop where
  symbols_eq : r.symbols = candidates.filter fun s => query.check t s = .viable
  rejections_eq : r.rejections = candidates.filterMap (query.rejection? t)
  symbols_nodup : r.symbols.Nodup
  rejected_nodup : r.rejected.Nodup
  isClear_iff : r.isClear = true ↔ candidates = []

theorem map_symbol_filterMap_rejection? (candidates : List SymbolId) :
    (candidates.filterMap (query.rejection? t)).map Rejection.symbol =
      candidates.filter fun s => query.check t s ≠ .viable := by
  induction candidates with
  | nil => rfl
  | cons s candidates ih =>
    cases hs : query.check t s with
    | viable =>
      have hnone : query.rejection? t s = none := by rw [ScopeQuery.rejection?, hs]
      rw [List.filterMap_cons_none hnone, List.filter_cons_of_neg (by simp [hs]), ih]
    | notViable reason =>
      have hsome : query.rejection? t s = some ⟨s, if query.diagnose then some reason else none⟩ := by
        rw [ScopeQuery.rejection?, hs]
      rw [List.filterMap_cons_some hsome, List.filter_cons_of_pos (by simp [hs]), List.map_cons, ih]

/-- No candidate is lost and nothing else gets into the result. -/
theorem mem_ofCandidates_iff {candidates : List SymbolId} {s : SymbolId} :
    s ∈ (ofCandidates t query candidates).symbols ∨ s ∈ (ofCandidates t query candidates).rejected ↔
      s ∈ candidates := by
  rw [symbols_ofCandidates, rejected, rejections_ofCandidates, mem_newByKey, mem_map_newByKey,
    map_symbol_filterMap_rejection?]
  by_cases hs : query.check t s = .viable
  · simp [hs]
  · simp [hs]

/-- Distinct candidates all show up in the result that consists of them. -/
theorem partitions_ofCandidates {candidates : List SymbolId} (hnodup : candidates.Nodup) :
    (ofCandidates t query candidates).Partitions t query candidates := by
  have hrejected : ((candidates.filterMap (query.rejection? t)).map Rejection.symbol).Nodup := by
    rw [map_symbol_filterMap_rejection?]
    exact hnodup.filter _
  have hconsistent := consistent_collect t query.diagnose (query.classify t candidates)
  refine ⟨?_, ?_, hconsistent.symbols_nodup, hconsistent.rejected_nodup, isClear_ofCandidates_iff⟩
  · rw [symbols_ofCandidates]
    exact newByKey_eq_self (by simpa using hnodup.filter _) (by simp)
  · rw [rejections_ofCandidates]
    exact newByKey_eq_self hrejected (by simp)

end LookupResult

end NameResolution
