import NameResolution.Proofs.Inheritance.Exploration
import NameResolution.Proofs.Results.Collecting
import NameResolution.Scope.Hierarchy

/-! What a search of a type and its base types comes to. If it is not called off, it
explores base types, passing through those that declare nothing by the name. Its result
consists of the candidates of the types entered, its diagnostics are added to those in the
sink, and the bound on the depth is never reached. -/

namespace NameResolution

open LookupResult (ofCandidates)

variable {t : SymbolTable} {query : ScopeQuery}

/-! ### Candidates and diagnostics of a visit -/

namespace SymbolTable

/-- The problem of a symbol as a diagnostic, if it has one. -/
def findingsOf (t : SymbolTable) (s : SymbolId) : List UseSiteDiagnostic :=
  ((t.data s).problem.map (UseSiteDiagnostic.problem s)).toList

/-- A type that declares nothing by a name does not hide what it inherits. -/
def isTransparent (t : SymbolTable) (name : NameId) (ty : SymbolId) : Bool :=
  (t.membersNamed ty name).isEmpty

end SymbolTable

namespace BaseVisit

def candidates (t : SymbolTable) (name : NameId) : BaseVisit → List SymbolId
  | entered ty => t.membersNamed ty name
  | cycle _ => []

def findings (t : SymbolTable) (name : NameId) : BaseVisit → List UseSiteDiagnostic
  | entered ty => (t.membersNamed ty name).flatMap t.findingsOf
  | cycle ty => [.inheritanceCycle ty]

end BaseVisit

namespace SymbolTable

/-- The visits of a search for a name that starts while certain types are being searched. -/
def visits (t : SymbolTable) (name : NameId) (pending : List SymbolId) (stack : BaseStack) : List BaseVisit :=
  t.explore (t.isTransparent name) pending stack.toList

def visitedCandidates (t : SymbolTable) (name : NameId) (pending : List SymbolId) (stack : BaseStack) :
    List SymbolId :=
  (t.visits name pending stack).flatMap (BaseVisit.candidates t name)

def visitedFindings (t : SymbolTable) (name : NameId) (pending : List SymbolId) (stack : BaseStack) :
    List UseSiteDiagnostic :=
  (t.visits name pending stack).flatMap (BaseVisit.findings t name)

theorem visits_cons (name : NameId) (ty : SymbolId) (rest : List SymbolId) (stack : BaseStack) :
    t.visits name (ty :: rest) stack = t.visits name [ty] stack ++ t.visits name rest stack :=
  explore_cons ty rest stack.toList

theorem visits_of_mem {name : NameId} {ty : SymbolId} {stack : BaseStack} (h : ty ∈ stack) :
    t.visits name [ty] stack = [.cycle ty] := by
  rw [visits, explore_cons_of_mem h, explore_nil]

theorem visits_of_not_mem {name : NameId} {ty : SymbolId} {stack : BaseStack} (h : ty ∉ stack) :
    t.visits name [ty] stack =
      .entered ty :: t.visits name (t.followed (t.isTransparent name) ty) (stack.insert ty) := by
  rw [visits, explore_cons_of_not_mem h, explore_nil, List.append_nil, visits,
    OrderedSet.toList_insert_of_not_mem h]

theorem visitedCandidates_nil (name : NameId) (stack : BaseStack) : t.visitedCandidates name [] stack = [] := by
  rw [visitedCandidates, visits, explore_nil, List.flatMap_nil]

theorem visitedFindings_nil (name : NameId) (stack : BaseStack) : t.visitedFindings name [] stack = [] := by
  rw [visitedFindings, visits, explore_nil, List.flatMap_nil]

theorem visitedCandidates_of_not_mem {name : NameId} {ty : SymbolId} {stack : BaseStack} (h : ty ∉ stack) :
    t.visitedCandidates name [ty] stack = t.membersNamed ty name ++
      t.visitedCandidates name (t.followed (t.isTransparent name) ty) (stack.insert ty) := by
  rw [visitedCandidates, visits_of_not_mem h, List.flatMap_cons]
  rfl

theorem visitedFindings_of_not_mem {name : NameId} {ty : SymbolId} {stack : BaseStack} (h : ty ∉ stack) :
    t.visitedFindings name [ty] stack = (t.membersNamed ty name).flatMap t.findingsOf ++
      t.visitedFindings name (t.followed (t.isTransparent name) ty) (stack.insert ty) := by
  rw [visitedFindings, visits_of_not_mem h, List.flatMap_cons]
  rfl

theorem followed_of_declares {name : NameId} {ty : SymbolId} (h : t.membersNamed ty name ≠ []) :
    t.followed (t.isTransparent name) ty = [] := by
  rw [followed, isTransparent, if_neg]
  simpa using h

theorem followed_of_declares_nothing {name : NameId} {ty : SymbolId} (h : t.membersNamed ty name = []) :
    t.followed (t.isTransparent name) ty = t.bases ty := by
  rw [followed, isTransparent, h]
  rfl

end SymbolTable

/-! ### Considering candidates -/

theorem Diagnostics.record_eq (sink : Diagnostics) (t : SymbolTable) (s : SymbolId) :
    Diagnostics.record sink t s = sink.insertAll (t.findingsOf s) := by
  unfold Diagnostics.record SymbolTable.findingsOf
  cases (t.data s).problem <;> rfl

theorem Search.considerAll_eq (env : SearchEnv) (query : ScopeQuery) (s : Search) (found : List SymbolId)
    (hs : s.result = ofCandidates env.table query found) (candidates : List SymbolId) :
    s.considerAll env query candidates =
      { result := ofCandidates env.table query (found ++ candidates)
        stack := s.stack
        sink := s.sink.insertAll (candidates.flatMap env.table.findingsOf) } := by
  induction candidates generalizing s found with
  | nil =>
    rw [List.append_nil, ← hs]
    rfl
  | cons c candidates ih =>
    have hc : (s.consider env query c).result = ofCandidates env.table query (found ++ [c]) := by
      rw [LookupResult.ofCandidates_append, ← hs]
      rfl
    have hstep : s.considerAll env query (c :: candidates) =
        (s.consider env query c).considerAll env query candidates := rfl
    rw [hstep, ih (s.consider env query c) _ hc, List.append_assoc, List.flatMap_cons,
      OrderedSet.insertAll_append, ← Diagnostics.record_eq]
    rfl

/-! ### The search -/

/-- The end of a search that found the given candidates and reported the given diagnostics. -/
def Search.ended (t : SymbolTable) (query : ScopeQuery) (s : Search) (candidates : List SymbolId)
    (findings : List UseSiteDiagnostic) : Searched :=
  Search.done
    { result := ofCandidates t query candidates
      stack := s.stack
      sink := s.sink.insertAll findings }

/-- Merging base by base comes to collecting the candidates of all bases. -/
theorem searchBases_eq {searchType : SymbolId → Search → Searched} {stack : BaseStack}
    {bases : List SymbolId}
    (h : ∀ base ∈ bases, ∀ s : Search, s.stack = stack → searchType base s.afresh =
      s.ended t query (t.visitedCandidates query.name [base] stack) (t.visitedFindings query.name [base] stack))
    (s : Search) (hstack : s.stack = stack) {found : List SymbolId}
    (hs : s.result = ofCandidates t query found) :
    searchBases t searchType bases s = s.ended t query
      (found ++ t.visitedCandidates query.name bases stack) (t.visitedFindings query.name bases stack) := by
  induction bases generalizing s found with
  | nil =>
    simp only [searchBases, Search.ended, SymbolTable.visitedCandidates, SymbolTable.visitedFindings,
      SymbolTable.visits, SymbolTable.explore_nil, List.flatMap_nil, List.append_nil, ← hs]
    rfl
  | cons base rest ih =>
    have hmerge : s.result.merge t (ofCandidates t query (t.visitedCandidates query.name [base] stack)) =
        ofCandidates t query (found ++ t.visitedCandidates query.name [base] stack) := by
      rw [hs, LookupResult.merge_ofCandidates]
    have hrest := ih (fun b hb => h b (List.mem_cons_of_mem base hb))
      { result := ofCandidates t query (found ++ t.visitedCandidates query.name [base] stack)
        stack := s.stack
        sink := s.sink.insertAll (t.visitedFindings query.name [base] stack) } hstack rfl
    rw [searchBases, h base List.mem_cons_self s hstack]
    simp only [Search.ended, Search.done, hmerge] at hrest ⊢
    rw [hrest]
    simp only [SymbolTable.visitedCandidates, SymbolTable.visitedFindings,
      t.visits_cons query.name base rest stack, List.flatMap_append, List.append_assoc,
      OrderedSet.insertAll_append]

/-- With more depth than there are symbols off the stack, the search explores base types to
the end: each type in the table that it enters takes one of those symbols away. -/
theorem searchHierarchyTo_eq (t : SymbolTable) (query : ScopeQuery) (depth : Nat) (ty : SymbolId)
    (s : Search) (hdepth : t.unseen s.stack.toList < depth) :
    searchHierarchyTo ⟨t, false⟩ query depth ty s.afresh = s.ended t query
      (t.visitedCandidates query.name [ty] s.stack) (t.visitedFindings query.name [ty] s.stack) := by
  induction depth generalizing ty s with
  | zero => exact absurd hdepth (Nat.not_lt_zero _)
  | succ depth ih =>
    by_cases hmem : ty ∈ s.stack
    · have hpush : BaseStack.push? s.afresh.stack ty = none := if_pos hmem
      simp only [searchHierarchyTo, Bool.false_eq_true, if_false, hpush]
      simp only [SymbolTable.visitedCandidates, SymbolTable.visitedFindings, SymbolTable.visits_of_mem hmem]
      rfl
    · have hpush : BaseStack.push? s.afresh.stack ty = some (s.stack.insert ty) := if_neg hmem
      have hown := Search.considerAll_eq ⟨t, false⟩ query { s.afresh with stack := s.stack.insert ty } [] rfl
        (t.membersNamed ty query.name)
      simp only [searchHierarchyTo, Bool.false_eq_true, if_false, hpush]
      rw [hown, List.nil_append, SymbolTable.visitedCandidates_of_not_mem hmem,
        SymbolTable.visitedFindings_of_not_mem hmem]
      by_cases hmembers : t.membersNamed ty query.name = []
      · have hclear : (ofCandidates t query (t.membersNamed ty query.name)).isClear = true :=
          LookupResult.isClear_ofCandidates_iff.2 hmembers
        have hbases : ∀ base ∈ t.bases ty, ∀ s' : Search, s'.stack = s.stack.insert ty →
            searchHierarchyTo ⟨t, false⟩ query depth base s'.afresh = s'.ended t query
              (t.visitedCandidates query.name [base] (s.stack.insert ty))
              (t.visitedFindings query.name [base] (s.stack.insert ty)) := by
          intro base hbase s' hs'
          have hless := SymbolTable.unseen_insert_lt hbase hmem
          rw [← hs'] at hless ⊢
          have hdeeper : t.unseen s'.stack.toList < depth := by omega
          exact ih base s' hdeeper
        rw [if_pos hclear, searchBases_eq hbases _ rfl rfl, Searched.leave_of_push? hpush,
          SymbolTable.followed_of_declares_nothing hmembers]
        simp only [Search.ended, Search.done, Search.afresh, OrderedSet.insertAll_append]
      · have hfound : ¬ (ofCandidates t query (t.membersNamed ty query.name)).isClear = true :=
          fun hc => hmembers (LookupResult.isClear_ofCandidates_iff.1 hc)
        rw [if_neg hfound, Searched.leave_of_push? hpush, SymbolTable.followed_of_declares hmembers,
          SymbolTable.visitedCandidates_nil, SymbolTable.visitedFindings_nil, List.append_nil,
          List.append_nil]
        rfl

/-- The search of a type that starts with nothing found. -/
theorem searchHierarchy_eq (t : SymbolTable) (query : ScopeQuery) (ty : SymbolId) (s : Search) :
    searchHierarchy ⟨t, false⟩ query ty s.afresh = s.ended t query
      (t.visitedCandidates query.name [ty] s.stack) (t.visitedFindings query.name [ty] s.stack) := by
  apply searchHierarchyTo_eq
  exact Nat.lt_succ_of_le (t.unseen_le_size _)

end NameResolution
