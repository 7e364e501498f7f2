import NameResolution.Proofs.FirstOccurrences
import NameResolution.Resolver

/-! The sink of diagnostics is written and never read. Whatever a search does with an empty
sink it does with any other one, at the end of which it puts those of its diagnostics that
are new there. -/

namespace NameResolution

/-! ### Adding to a sink -/

namespace Diagnostics

theorem extend_insert (earlier sink : Diagnostics) (d : UseSiteDiagnostic) :
    extend earlier (OrderedSet.insert sink d) = OrderedSet.insert (extend earlier sink) d :=
  OrderedSet.insertAll_toList_insertAll earlier sink [d]

theorem extend_record (earlier sink : Diagnostics) (t : SymbolTable) (s : SymbolId) :
    extend earlier (record sink t s) = record (extend earlier sink) t s := by
  unfold record
  cases (t.data s).problem with
  | none => rfl
  | some p => exact extend_insert earlier sink _

theorem prefix_extend (sink other : Diagnostics) : sink.toList <+: (extend sink other).toList := by
  rw [extend, OrderedSet.toList_insertAll]
  exact List.prefix_append _ _

/-- What was added once is not added again. -/
theorem extend_extend_self (sink other : Diagnostics) : extend (extend sink other) other = extend sink other := by
  apply OrderedSet.ext
  have hnone : newByKey id (extend sink other).toList other.toList = [] :=
    newByKey_eq_nil_iff.2 fun d hd => OrderedSet.mem_insertAll.2 (Or.inr hd)
  rw [extend, OrderedSet.toList_insertAll, hnone, List.append_nil]

end Diagnostics

/-! ### Searches that start later -/

/-- The same state, where other diagnostics were reported before. -/
def Search.after (earlier : Diagnostics) (s : Search) : Search :=
  { s with sink := Diagnostics.extend earlier s.sink }

def Searched.after (earlier : Diagnostics) (found : Searched) : Searched :=
  { found with sink := Diagnostics.extend earlier found.sink }

section

variable {earlier : Diagnostics} (env : SearchEnv) (query : ScopeQuery)

theorem Search.considerAll_after (s : Search) (candidates : List SymbolId) :
    (s.after earlier).considerAll env query candidates = (s.considerAll env query candidates).after earlier := by
  induction candidates generalizing s with
  | nil => rfl
  | cons c candidates ih =>
    have hstep : (s.after earlier).consider env query c = (s.consider env query c).after earlier := by
      simp only [Search.consider, Search.after, Diagnostics.extend_record]
    have hfirst : (s.after earlier).considerAll env query (c :: candidates) =
        ((s.after earlier).consider env query c).considerAll env query candidates := rfl
    rw [hfirst, hstep, ih]
    rfl

theorem Searched.leave_after (found : Searched) (ty : SymbolId) :
    (found.after earlier).leave ty = (found.leave ty).after earlier := by
  have hstack : (found.after earlier).stack = found.stack := rfl
  unfold Searched.leave
  rw [hstack]
  cases BaseStack.pop found.stack ty <;> rfl

theorem searchBases_after (t : SymbolTable) {searchType : SymbolId → Search → Searched}
    (h : ∀ ty s, searchType ty (Search.after earlier s) = (searchType ty s).after earlier)
    (bases : List SymbolId) (s : Search) :
    searchBases t searchType bases (s.after earlier) = (searchBases t searchType bases s).after earlier := by
  induction bases generalizing s with
  | nil => rfl
  | cons base rest ih =>
    have hbase : searchType base (s.after earlier).afresh = (searchType base s.afresh).after earlier :=
      h base s.afresh
    have hinterruption :
        ((searchType base s.afresh).after earlier).interruption = (searchType base s.afresh).interruption := rfl
    simp only [searchBases, hbase, hinterruption]
    cases (searchType base s.afresh).interruption with
    | some reason => rfl
    | none =>
      exact ih { (searchType base s.afresh).toSearch with
        result := s.result.merge t (searchType base s.afresh).result }

theorem searchHierarchyTo_after (depth : Nat) (ty : SymbolId) (s : Search) :
    searchHierarchyTo env query depth ty (s.after earlier) =
      (searchHierarchyTo env query depth ty s).after earlier := by
  induction depth generalizing ty s with
  | zero => rfl
  | succ depth ih =>
    have hstack : (s.after earlier).stack = s.stack := rfl
    simp only [searchHierarchyTo, hstack]
    cases env.cancelled with
    | true => rfl
    | false =>
      simp only [Bool.false_eq_true, if_false]
      cases BaseStack.push? s.stack ty with
      | none =>
        exact congrArg (fun sink => Search.done { s with sink })
          (Diagnostics.extend_insert earlier s.sink (.inheritanceCycle ty)).symm
      | some stack =>
        let own := Search.considerAll env query { s with stack } (env.table.membersNamed ty query.name)
        have hown : Search.considerAll env query { s.after earlier with stack }
            (env.table.membersNamed ty query.name) = own.after earlier :=
          Search.considerAll_after env query { s with stack } _
        have hclear : (own.after earlier).result.isClear = own.result.isClear := rfl
        simp only [hown, hclear]
        cases own.result.isClear with
        | true =>
          rw [if_pos rfl, searchBases_after env.table ih, Searched.leave_after]
          rfl
        | false =>
          rw [if_neg Bool.false_ne_true]
          exact Searched.leave_after own.done ty

theorem ImportScope.search_after (directives : ImportScope) (s : Search) :
    directives.search env query (s.after earlier) = (directives.search env query s).after earlier := by
  let aliased := s.considerAll env query (directives.aliases.get query.name)
  have haliased : (s.after earlier).considerAll env query (directives.aliases.get query.name) =
      aliased.after earlier := Search.considerAll_after env query s _
  have hclear : (aliased.after earlier).result.isClear = aliased.result.isClear := rfl
  simp only [ImportScope.search, haliased, hclear, Search.considerAll_after]
  split <;> rfl

theorem Scope.search_after (scope : Scope) (s : Search) :
    scope.search env query (s.after earlier) = (scope.search env query s).after earlier := by
  have hclear : (s.after earlier).result.isClear = s.result.isClear := rfl
  have hconsider : ∀ candidates, ((s.after earlier).considerAll env query candidates).done =
      (s.considerAll env query candidates).done.after earlier := fun candidates =>
    congrArg Search.done (Search.considerAll_after env query s candidates)
  unfold Scope.search
  rw [hclear]
  split
  · cases scope with
    | ofNamespace container => exact hconsider _
    | ofImports directives => exact congrArg Search.done (ImportScope.search_after env query directives s)
    | ofType ty => exact searchHierarchyTo_after env query _ ty s
    | ofTypeParameters p => exact hconsider _
    | ofLocals l => exact hconsider _
  · rfl

theorem searchChain_after (chain : ScopeChain) (s : Search) :
    searchChain env query chain (s.after earlier) = (searchChain env query chain s).after earlier := by
  induction chain generalizing s with
  | nil => rfl
  | cons scope outer ih =>
    simp only [searchChain, Scope.search_after]
    cases env.cancelled with
    | true => rfl
    | false =>
      simp only [Bool.false_eq_true, if_false]
      cases scope.admits query.options with
      | false => exact ih s
      | true =>
        let found := scope.search env query s
        have hgoesOn : ((found.after earlier).interruption.isNone && (found.after earlier).result.isClear) =
            (found.interruption.isNone && found.result.isClear) := rfl
        simp only [if_true, found, hgoesOn]
        split
        · exact ih (scope.search env query s).toSearch
        · rfl

end

/-! ### Runs with a sink -/

/-- A run that adds to a sink what it reports, in its order and as far as it is new. The sink
has no influence on the rest of the outcome, and a second run has nothing to add. -/
structure AppendsOnly {α : Type} (run : Diagnostics → α × Diagnostics) : Prop where
  outcome_eq : ∀ sink sink', (run sink).1 = (run sink').1
  sink_eq : ∀ sink, (run sink).2 = Diagnostics.extend sink (run ∅).2
  isPrefix : ∀ sink, sink.toList <+: (run sink).2.toList
  nodup : ∀ sink, (run sink).2.toList.Nodup
  run_again : ∀ sink, run (run sink).2 = run sink

theorem AppendsOnly.of_eq {α : Type} {run : Diagnostics → α × Diagnostics}
    (h : ∀ sink, run sink = ((run ∅).1, Diagnostics.extend sink (run ∅).2)) : AppendsOnly run where
  outcome_eq sink sink' := by rw [h sink, h sink']
  sink_eq sink := by rw [h sink]
  isPrefix sink := by
    rw [h sink]
    exact Diagnostics.prefix_extend sink _
  nodup sink := OrderedSet.nodup _
  run_again sink := by
    have hsink : (run sink).2 = Diagnostics.extend sink (run ∅).2 := by rw [h sink]
    rw [h (run sink).2, hsink, Diagnostics.extend_extend_self]
    exact (h sink).symm

/-- The end of a search with its sink apart. -/
def Searched.split (found : Searched) : (LookupResult × BaseStack × Option Interruption) × Diagnostics :=
  ((found.result, found.stack, found.interruption), found.sink)

/-- A search that can be moved after earlier diagnostics, in whatever state it starts. -/
theorem appendsOnly_of_after {search : Search → Searched}
    (h : ∀ earlier s, search (Search.after earlier s) = (search s).after earlier) (s : Search) :
    AppendsOnly fun sink => (search { s with sink }).split := by
  apply AppendsOnly.of_eq
  intro sink
  have hstart : ({ s with sink } : Search) = Search.after sink { s with sink := ∅ } := rfl
  rw [hstart, h]
  rfl

theorem Resolver.lookup_eq_extend (r : Resolver) (chain : ScopeChain) (request : LookupRequest)
    (cancelled : Bool) (sink : Diagnostics) : r.lookup chain request cancelled sink =
      ((r.lookup chain request cancelled ∅).1,
        Diagnostics.extend sink (r.lookup chain request cancelled ∅).2) := by
  unfold lookup
  split
  · rfl
  · split
    · rfl
    · cases r.names.find? request.name with
      | none => rfl
      | some name =>
        have hchain : searchChain ⟨r.table, cancelled⟩ (request.query name) chain { sink } =
            (searchChain ⟨r.table, cancelled⟩ (request.query name) chain {}).after sink :=
          searchChain_after ⟨r.table, cancelled⟩ (request.query name) chain {}
        have hinterruption :
            ((searchChain ⟨r.table, cancelled⟩ (request.query name) chain {}).after sink).interruption =
              (searchChain ⟨r.table, cancelled⟩ (request.query name) chain {}).interruption := rfl
        simp only [hchain, hinterruption]
        cases (searchChain ⟨r.table, cancelled⟩ (request.query name) chain {}).interruption <;> rfl

/-- The sink influences neither lookups nor the searches of single scopes and types, whatever
state these start from, and all of them only add to it. -/
theorem searches_append_only (r : Resolver) (cancelled : Bool) :
    (∀ (chain : ScopeChain) (request : LookupRequest),
      AppendsOnly fun sink => r.lookup chain request cancelled sink) ∧
    (∀ (scope : Scope) (query : ScopeQuery) (s : Search),
      AppendsOnly fun sink => (scope.search ⟨r.table, cancelled⟩ query { s with sink }).split) ∧
    (∀ (ty : SymbolId) (query : ScopeQuery) (s : Search),
      AppendsOnly fun sink => (searchHierarchy ⟨r.table, cancelled⟩ query ty { s with sink }).split) := by
  refine ⟨fun chain request => ?_, fun scope query s => ?_, fun ty query s => ?_⟩
  · exact AppendsOnly.of_eq fun sink => r.lookup_eq_extend chain request cancelled sink
  · exact appendsOnly_of_after (fun _ s => Scope.search_after _ query scope s) s
  · exact appendsOnly_of_after (fun _ s => searchHierarchyTo_after _ query _ ty s) s

end NameResolution
