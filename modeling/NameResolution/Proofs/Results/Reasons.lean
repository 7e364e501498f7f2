import NameResolution.Lookup.Error
import NameResolution.Proofs.Results.Collecting

/-! Reasons for rejections. They are told or left out as a request asks, and nothing else
about a result or about the error made from it depends on that. -/

namespace NameResolution

def Rejection.withoutReason (x : Rejection) : Rejection := { x with reason := none }

/-- The same result with all reasons left out. -/
def LookupResult.withoutReasons (r : LookupResult) : LookupResult :=
  { r with rejections := r.rejections.map Rejection.withoutReason }

def ResolutionError.withoutReason : ResolutionError → ResolutionError
  | notViable name symbol _ => notViable name symbol none
  | error => error

namespace LookupResult

variable {t : SymbolTable}

/-! ### Results without reasons -/

@[simp] theorem kind_withoutReasons (r : LookupResult) : r.withoutReasons.kind = r.kind := rfl

@[simp] theorem rejected_withoutReasons (r : LookupResult) : r.withoutReasons.rejected = r.rejected := by
  simp only [rejected, withoutReasons, List.map_map]
  rfl

theorem withoutReasons_addViable (r : LookupResult) (s : SymbolId) :
    (r.addViable t s).withoutReasons = r.withoutReasons.addViable t s := by
  by_cases hs : s ∈ r.symbols
  · have hs' : s ∈ r.withoutReasons.symbols := hs
    rw [addViable, addViable, if_pos hs, if_pos hs']
  · have hs' : s ∉ r.withoutReasons.symbols := hs
    rw [addViable, addViable, if_neg hs, if_neg hs']
    rfl

theorem withoutReasons_addRejection (r : LookupResult) (x : Rejection) :
    (r.addRejection x).withoutReasons = r.withoutReasons.addRejection x.withoutReason := by
  by_cases hx : x.symbol ∈ r.rejected
  · have hx' : x.withoutReason.symbol ∈ r.withoutReasons.rejected := by rwa [rejected_withoutReasons]
    rw [addRejection, addRejection, if_pos hx, if_pos hx']
  · have hx' : x.withoutReason.symbol ∉ r.withoutReasons.rejected := by rwa [rejected_withoutReasons]
    rw [addRejection, addRejection, if_neg hx, if_neg hx']
    simp only [withoutReasons, List.map_append, List.map_cons, List.map_nil]
    rfl

/-- Candidate by candidate, the reasons are all that is left out. -/
theorem withoutReasons_collect (found : List (SymbolId × Viability)) :
    (collect t true found).withoutReasons = collect t false found := by
  have hstep : ∀ (r : LookupResult) (c : SymbolId × Viability),
      r.withoutReasons.addCandidate t false c.1 c.2 = (r.addCandidate t true c.1 c.2).withoutReasons := by
    rintro r ⟨s, v⟩
    cases v with
    | viable => exact (withoutReasons_addViable r s).symm
    | notViable reason => exact (withoutReasons_addRejection r ⟨s, some reason⟩).symm
  exact (List.foldl_hom withoutReasons hstep).symm

theorem withoutReasons_ofCandidates (query : ScopeQuery) (candidates : List SymbolId) :
    (ofCandidates t { query with diagnose := true } candidates).withoutReasons =
      ofCandidates t { query with diagnose := false } candidates :=
  withoutReasons_collect _

/-! ### Reasons that are told -/

/-- A repeated rejection does not change the reason, which is what the query says. -/
theorem reason_of_mem_rejections {query : ScopeQuery} (hdiagnose : query.diagnose = true)
    {candidates : List SymbolId} {x : Rejection} (hx : x ∈ (ofCandidates t query candidates).rejections) :
    ∃ reason, x.reason = some reason ∧ query.check t x.symbol = .notViable reason := by
  rw [rejections_ofCandidates] at hx
  obtain ⟨s, -, hs⟩ := List.mem_filterMap.1 ((newByKey_sublist _ _).subset hx)
  unfold ScopeQuery.rejection? at hs
  cases hcheck : query.check t s with
  | viable =>
    rw [hcheck] at hs
    cases hs
  | notViable reason =>
    rw [hcheck, hdiagnose] at hs
    cases hs
    exact ⟨reason, rfl, hcheck⟩

/-! ### Errors -/

theorem toError?_withoutReasons (r : LookupResult) (name : String) :
    r.withoutReasons.toError? name = (r.toError? name).map ResolutionError.withoutReason := by
  unfold toError?
  rw [kind_withoutReasons]
  cases r.kind with
  | empty | viable | ambiguous => rfl
  | notViable =>
    have hhead : r.withoutReasons.rejections.head? = r.rejections.head?.map Rejection.withoutReason :=
      List.head?_map
    simp only [hhead, Option.map_map]
    rfl

end LookupResult

end NameResolution
