import NameResolution.Proofs.Access.Rules
import NameResolution.Proofs.Chain.Levels
import NameResolution.Proofs.Chain.Runs

/-! Lookups come to an end. Neither nested symbols nor cyclic base types nor a cancellation keep a search
from returning with the stack it was given, no rule of the library is ever broken on the way, and only a
raised flag keeps a lookup from having a result. -/

namespace NameResolution

/-! ### The flag -/

/-- A search under a raised flag does not begin. -/
theorem searchHierarchy_of_cancelled {env : SearchEnv} (h : env.cancelled = true) (query : ScopeQuery)
    (ty : SymbolId) (s : Search) : searchHierarchy env query ty s = s.interrupted .cancelled := by
  rw [searchHierarchy, searchHierarchyTo, if_pos h]

theorem interruption_searchBases {t : SymbolTable} {searchType : SymbolId → Search → Searched}
    (h : ∀ ty s, (searchType ty s).interruption = none) (bases : List SymbolId) (s : Search) :
    (searchBases t searchType bases s).interruption = none := by
  induction bases generalizing s with
  | nil => rfl
  | cons base rest ih =>
    rw [searchBases]
    simp only [h base s.afresh]
    exact ih _

theorem interruption_searchHierarchyTo {env : SearchEnv} (hcancelled : env.cancelled = false) (query : ScopeQuery)
    (depth : Nat) (ty : SymbolId) (s : Search) : (searchHierarchyTo env query depth ty s).interruption = none := by
  induction depth generalizing ty s with
  | zero => rfl
  | succ depth ih =>
    rw [searchHierarchyTo, hcancelled, if_neg Bool.false_ne_true]
    split
    · rfl
    · next stack hpush =>
      dsimp only
      split
      · have hkept := stack_searchBases env.table (stack_searchHierarchyTo env query depth) (env.table.bases ty)
          (Search.considerAll env query { s with stack } (env.table.membersNamed ty query.name))
        rw [HierarchyRun.leave_eq hpush (hkept.trans (Search.stack_considerAll ..))]
        exact interruption_searchBases ih _ _
      · rw [HierarchyRun.leave_eq hpush (Search.stack_considerAll ..)]
        rfl

theorem interruption_searchHierarchy (env : SearchEnv) (query : ScopeQuery) (ty : SymbolId) (s : Search) :
    (searchHierarchy env query ty s).interruption = if env.cancelled then some .cancelled else none := by
  cases hcancelled : env.cancelled with
  | true => rw [searchHierarchy_of_cancelled hcancelled]; rfl
  | false => exact interruption_searchHierarchyTo hcancelled query _ ty s

namespace Resolver

theorem lookup_of_cancelled (r : Resolver) (chain : ScopeChain) {request : LookupRequest}
    (hvalid : request.options.isValid = true) (sink : Diagnostics) :
    r.lookup chain request true sink = (.error .cancelled, sink) := by
  rw [lookup, hvalid]
  rfl

theorem exists_lookup_eq_ok (r : Resolver) (chain : ScopeChain) {request : LookupRequest}
    (hvalid : request.options.isValid = true) (sink : Diagnostics) :
    ∃ result sink', r.lookup chain request false sink = (.ok result, sink') := by
  cases hname : r.names.find? request.name with
  | none =>
    exact ⟨.empty, sink, lookup_of_find?_eq_none hvalid hname chain sink⟩
  | some name => exact ⟨_, _, lookup_eq hvalid hname chain sink⟩

end Resolver

/-- The check of a symbol for a reference from a place in the table has exactly one run, which follows
the walks through containers, containing types and base types step by step. It ends because containers
are declared before what they hold and no base type is expanded twice. The search of a type has exactly
one run as well, whatever the base types, the stack and the flag, and so has a lookup along scopes of
the table. Runs keep the stack and end in nothing worse than a cancellation, even if the flag is raised
in the middle of one. A lookup has a result unless the flag is raised. -/
theorem lookups_terminate (r : Resolver) :
    (∀ query : ScopeQuery, (∀ place, query.context.within = some place → r.table.contains place = true) →
      (∀ s, r.table.contains s = true →
        ∀ verdict, query.CheckRun r.table s verdict ↔ verdict = query.check r.table s) ∧
      ∀ (cancelled : Bool) (ty : SymbolId) (s : Search) (ended : Searched),
        HierarchyRun r.table query (fun answer => answer = cancelled) (.type ty) s ended ↔
          ended = searchHierarchy ⟨r.table, cancelled⟩ query ty s) ∧
    (∀ (cancelled : Bool) (query : ScopeQuery) (ty : SymbolId) (s : Search),
      let found := searchHierarchy ⟨r.table, cancelled⟩ query ty s
      found.stack = s.stack ∧ found.interruption = if cancelled then some .cancelled else none) ∧
    (∀ (answers : Bool → Prop) (query : ScopeQuery) (ty : SymbolId) (s : Search) (ended : Searched),
      HierarchyRun r.table query answers (.type ty) s ended →
        ended.stack = s.stack ∧ (ended.interruption = none ∨ ended.interruption = some .cancelled)) ∧
    (∀ (chain : ScopeChain) (request : LookupRequest) (sink : Diagnostics),
      (∀ x ∈ chain, x.BuiltFrom r.table) →
        (∀ place, request.context.within = some place → r.table.contains place = true) →
          ∀ cancelled outcome, r.LookupRun chain request (fun answer => answer = cancelled) sink outcome ↔
            outcome = r.lookup chain request cancelled sink) ∧
    (∀ (chain : ScopeChain) (request : LookupRequest) (sink : Diagnostics), request.options.isValid = true →
      (∀ answers outcome, r.LookupRun chain request answers sink outcome →
        (∃ result, outcome.1 = .ok result) ∨ outcome.1 = .error .cancelled) ∧
      r.lookup chain request true sink = (.error .cancelled, sink) ∧
      ∃ result sink', r.lookup chain request false sink = (.ok result, sink')) := by
  refine ⟨fun query hcontext => ⟨?_, ?_⟩, ?_, ?_, ?_, ?_⟩
  · intro s hs verdict
    exact ScopeQuery.checkRun_iff hcontext hs
  · intro cancelled ty s ended
    exact @run_iff_eq_searchHierarchy ⟨r.table, cancelled⟩ query ty s ended hcontext
  · intro cancelled query ty s found
    exact ⟨stack_searchHierarchyTo _ query _ ty s, interruption_searchHierarchy ⟨r.table, cancelled⟩ query ty s⟩
  · intro answers query ty s ended hrun
    exact ⟨hrun.stack_eq, hrun.interruption_eq.imp_right And.left⟩
  · intro chain request sink hchain hcontext cancelled outcome
    exact Resolver.lookupRun_iff hcontext hchain cancelled
  · intro chain request sink hvalid
    refine ⟨fun answers outcome hrun => (hrun.no_violation hvalid).imp_right And.left, ?_⟩
    exact ⟨r.lookup_of_cancelled chain hvalid sink, r.exists_lookup_eq_ok chain hvalid sink⟩

/-- Type 1 is a base of itself. It has a protected field 2 and a method 3. -/
def ownBase : Resolver :=
  let b := (Builder.start .empty).declareAll
    [.typeIn ⟨0⟩ "A" .classType 0, .memberIn ⟨1⟩ "f" .field .protectedAccess, .memberIn ⟨1⟩ "M" .method .publicAccess,
      .base ⟨1⟩ ⟨1⟩]
  { names := b.names, table := b.table }

/-- The field is checked from inside the method. A name that the type does not declare is looked for in
its base, which is the type again, unless the flag is raised between entering the type and coming back
to it. -/
theorem lookups_terminate_ownBase :
    let t := ownBase.table
    let request : LookupRequest := { name := "A", context := ⟨⟨0⟩, some ⟨3⟩⟩ }
    let query := request.query ⟨1⟩
    (∀ place, request.context.within = some place → t.contains place = true) ∧
      (∀ x ∈ [Scope.ofType ⟨1⟩], x.BuiltFrom t) ∧ request.options.isValid = true ∧
      query.CheckRun t ⟨2⟩ .viable ∧
      (∃ ended, HierarchyRun t query (fun _ => True) (.type ⟨1⟩) {} ended ∧
        ended.interruption = some .cancelled ∧ ended.stack = ∅) ∧
      ownBase.LookupRun [.ofType ⟨1⟩] request (fun answer => answer = false) ∅
        (.ok .empty, .ofList [.inheritanceCycle ⟨1⟩]) ∧
      ownBase.lookup [.ofType ⟨1⟩] request true ∅ = (.error .cancelled, ∅) := by
  intro t request query
  obtain ⟨hchecks, -, hruns, hlookups, hflag⟩ := lookups_terminate ownBase
  have hcontext : ∀ place, request.context.within = some place → t.contains place = true := by
    rintro place ⟨⟩
    decide +kernel
  have hchain : ∀ x ∈ [Scope.ofType ⟨1⟩], x.BuiltFrom t := by
    intro x hx
    rw [List.mem_singleton.1 hx]
    exact .ofType _ (by decide +kernel)
  have hvalid : request.options.isValid = true := by decide
  have hfamily : request.context.isWithinFamily t ⟨1⟩ = true :=
    LookupContext.isWithinFamily_iff.2 ⟨⟨3⟩, ⟨1⟩, rfl, .single (by decide +kernel), Or.inl rfl⟩
  have hfield : t.isPermitted ⟨2⟩ request.context = true :=
    SymbolTable.isPermitted_iff.2 (.inFamily (by decide +kernel) (by decide +kernel) hfamily)
  have haccess : t.isAccessible ⟨2⟩ request.context = true := by
    have htype : t.isAccessible ⟨1⟩ request.context = true := by decide +kernel
    have howner : t.containingType ⟨2⟩ = some ⟨1⟩ := by decide +kernel
    rw [SymbolTable.isAccessible_eq_and, howner, hfield]
    exact htype
  have hcheck : query.CheckRun t ⟨2⟩ .viable :=
    ((hchecks query hcontext).1 ⟨2⟩ (by decide +kernel) .viable).2 (ScopeQuery.check_eq_viable_iff.2
      ⟨by decide, by decide, by decide, by decide, haccess⟩).symm
  have hmembers : t.membersNamed ⟨1⟩ query.name = [] := by decide +kernel
  have hown : ConsiderRun t query (t.membersNamed ⟨1⟩ query.name) { stack := (∅ : BaseStack).insert ⟨1⟩ }
      { stack := (∅ : BaseStack).insert ⟨1⟩ } := by
    rw [hmembers]
    exact .done
  have hbases : t.bases ⟨1⟩ = [⟨1⟩] := by decide +kernel
  have hrun : HierarchyRun t query (fun _ => True) (.type ⟨1⟩) {}
      (Searched.leave { stack := (∅ : BaseStack).insert ⟨1⟩, interruption := some .cancelled } ⟨1⟩) := by
    refine .inherited trivial rfl hown rfl ?_
    rw [hbases]
    exact .interrupted (.cancelled trivial) rfl
  exact ⟨hcontext, hchain, hvalid, hcheck, ⟨_, hrun, by decide +kernel, (hruns _ _ _ _ _ hrun).1⟩,
    (hlookups [.ofType ⟨1⟩] request ∅ hchain hcontext false _).2 (by decide +kernel),
    (hflag [.ofType ⟨1⟩] request ∅ hvalid).2.1⟩

end NameResolution
