import NameResolution.Proofs.Chain.Entries
import NameResolution.Proofs.Hierarchy.Runs

/-! Runs of a lookup along a chain, with no bound on the number of steps. The flag is asked before each
level and before each type, and a run follows the levels, the types and the checks of all candidates on
the way, so that there is one only if the lookup comes to an end. -/

namespace NameResolution

variable {t : SymbolTable} {query : ScopeQuery} {answers : Bool → Prop}

/-! ### One level -/

/-- How a scope is searched, which has to begin with nothing found. -/
def Scope.Run (t : SymbolTable) (query : ScopeQuery) (answers : Bool → Prop) (scope : Scope) (s : Search)
    (ended : Searched) : Prop :=
  if s.result.isClear then
    match scope with
    | ofNamespace container =>
      ∃ found, ConsiderRun t query (t.membersNamed container query.name) s found ∧ ended = found.done
    | ofImports directives =>
      ∃ aliased, ConsiderRun t query (directives.aliases.get query.name) s aliased ∧
        if aliased.result.isClear && !query.options.namespaceAliasesOnly then
          ∃ found, ConsiderRun t query (directives.types t query.name) aliased found ∧ ended = found.done
        else ended = aliased.done
    | ofType ty => HierarchyRun t query answers (.type ty) s ended
    | ofTypeParameters p =>
      ∃ found, ConsiderRun t query (p.parameters.get query.name) s found ∧ ended = found.done
    | ofLocals l =>
      ∃ found, ConsiderRun t query ((l.table query.options).get query.name) s found ∧ ended = found.done
  else ended = s.interrupted (.violation .resultNotClear)

namespace Scope

/-- A search that begins with nothing found keeps the stack and is interrupted by nothing but the
flag. -/
theorem Run.kept {scope : Scope} {s : Search} {ended : Searched} (h : scope.Run t query answers s ended)
    (hclear : s.result.isClear = true) :
    ended.stack = s.stack ∧ (ended.interruption = none ∨ ended.interruption = some .cancelled ∧ answers true) := by
  unfold Run at h
  rw [if_pos hclear] at h
  have hplain : ∀ {candidates : List SymbolId} {s found : Search}, ConsiderRun t query candidates s found →
      found.done.stack = s.stack ∧
        (found.done.interruption = none ∨ found.done.interruption = some .cancelled ∧ answers true) :=
    fun hfound => ⟨hfound.stack_eq, Or.inl rfl⟩
  cases scope with
  | ofNamespace | ofTypeParameters | ofLocals =>
    obtain ⟨found, hfound, rfl⟩ := h
    exact hplain hfound
  | ofImports directives =>
    obtain ⟨aliased, haliased, h⟩ := h
    split at h
    · obtain ⟨found, hfound, rfl⟩ := h
      exact ⟨hfound.stack_eq.trans haliased.stack_eq, Or.inl rfl⟩
    · rw [h]
      exact hplain haliased
  | ofType ty => exact ⟨h.stack_eq, h.interruption_eq⟩

theorem contains_of_mem_get_declare {symbols : List SymbolId} (hsymbols : ∀ s ∈ symbols, t.contains s = true)
    {name : NameId} : ∀ s ∈ (NameTable.declare t ∅ symbols).get name, t.contains s = true :=
  fun s hs => hsymbols s (NameTable.mem_get_declare_empty.1 hs).1

/-- The search of a scope of the table ends the way its only run ends. -/
theorem run_iff_eq_search {env : SearchEnv}
    (hcontext : ∀ place, query.context.within = some place → env.table.contains place = true) {scope : Scope}
    (hscope : scope.BuiltFrom env.table) {s : Search} {ended : Searched} :
    scope.Run env.table query (fun answer => answer = env.cancelled) s ended ↔
      ended = scope.search env query s := by
  have hconsider : ∀ {candidates : List SymbolId} {s found : Search},
      (∀ c ∈ candidates, env.table.contains c = true) →
        (ConsiderRun env.table query candidates s found ↔ found = s.considerAll env query candidates) :=
    fun hcandidates => ConsiderRun.iff_eq_considerAll hcontext hcandidates
  unfold Run search
  split
  · cases hscope with
    | ofNamespace container _ =>
      simp only [hconsider fun _ => SymbolTable.contains_of_mem_membersNamed, exists_eq_left]
    | ofType ty _ => exact run_iff_eq_searchHierarchy hcontext
    | typeParameters level owner parameters _ hparameters =>
      simp only [Scope.typeParameters, hconsider (contains_of_mem_get_declare hparameters), exists_eq_left]
    | locals kind bound labels hbound hlabels =>
      simp only [Scope.locals, LocalScope.table]
      split
      · simp only [hconsider (contains_of_mem_get_declare hlabels), exists_eq_left]
      · simp only [hconsider (contains_of_mem_get_declare hbound), exists_eq_left]
    | imports namespaces aliases _ haliases =>
      have htypes : ∀ c ∈ (⟨.ofList namespaces, NameTable.declare env.table ∅ aliases⟩ : ImportScope).types
          env.table query.name, env.table.contains c = true := by
        intro c hc
        obtain ⟨container, -, hmember⟩ := List.mem_flatMap.1 hc
        exact SymbolTable.contains_of_mem_membersNamed (List.mem_of_mem_filter hmember)
      simp only [Scope.imports, ImportScope.search, hconsider (contains_of_mem_get_declare haliases),
        hconsider htypes, exists_eq_left]
      split <;> rfl
  · rfl

end Scope

/-! ### The whole chain -/

/-- How a chain is searched from the inside out. -/
inductive ChainRun (t : SymbolTable) (query : ScopeQuery) (answers : Bool → Prop) :
    ScopeChain → Search → Searched → Prop
  | exhausted {s : Search} : ChainRun t query answers [] s s.done
  | cancelled {scope : Scope} {outer : ScopeChain} {s : Search} (hraised : answers true) :
      ChainRun t query answers (scope :: outer) s (s.interrupted .cancelled)
  | skipped {scope : Scope} {outer : ScopeChain} {s : Search} {ended : Searched} (hlowered : answers false)
      (hadmits : scope.admits query.options = false) (hrest : ChainRun t query answers outer s ended) :
      ChainRun t query answers (scope :: outer) s ended
  | decided {scope : Scope} {outer : ScopeChain} {s : Search} {found : Searched} (hlowered : answers false)
      (hadmits : scope.admits query.options = true) (hscope : scope.Run t query answers s found)
      (hstop : (found.interruption.isNone && found.result.isClear) = false) :
      ChainRun t query answers (scope :: outer) s found
  | onward {scope : Scope} {outer : ScopeChain} {s : Search} {found ended : Searched} (hlowered : answers false)
      (hadmits : scope.admits query.options = true) (hscope : scope.Run t query answers s found)
      (hnone : (found.interruption.isNone && found.result.isClear) = true)
      (hrest : ChainRun t query answers outer found.toSearch ended) : ChainRun t query answers (scope :: outer) s ended

namespace ChainRun

variable {chain : ScopeChain} {s : Search} {ended : Searched}

/-- No level begins with something found, so nothing but the flag interrupts a run. -/
theorem kept (h : ChainRun t query answers chain s ended) (hclear : s.result.isClear = true) :
    ended.stack = s.stack ∧ (ended.interruption = none ∨ ended.interruption = some .cancelled ∧ answers true) := by
  induction h with
  | exhausted => exact ⟨rfl, Or.inl rfl⟩
  | cancelled hraised => exact ⟨rfl, Or.inr ⟨rfl, hraised⟩⟩
  | skipped _ _ _ ih => exact ih hclear
  | decided _ _ hscope _ => exact hscope.kept hclear
  | onward _ _ hscope hnone _ ih =>
    obtain ⟨hstack, hinterruption⟩ := ih (Bool.and_eq_true_iff.1 hnone).2
    exact ⟨hstack.trans (hscope.kept hclear).1, hinterruption⟩

/-- The search of a chain of scopes of the table ends the way its only run ends. -/
theorem iff_eq_searchChain {env : SearchEnv}
    (hcontext : ∀ place, query.context.within = some place → env.table.contains place = true)
    (hchain : ∀ x ∈ chain, x.BuiltFrom env.table) :
    ChainRun env.table query (fun answer => answer = env.cancelled) chain s ended ↔
      ended = searchChain env query chain s := by
  induction chain generalizing s ended with
  | nil =>
    constructor
    · rintro ⟨⟩
      rfl
    · rintro rfl
      exact .exhausted
  | cons scope outer ih =>
    obtain ⟨hscope, houter⟩ := List.forall_mem_cons.1 hchain
    have hrun := fun found => @Scope.run_iff_eq_search query env hcontext scope hscope s found
    rw [searchChain]
    dsimp only
    constructor
    · intro h
      cases h with
      | cancelled hraised => rw [← hraised, if_pos rfl]
      | skipped hlowered hadmits hrest =>
        rw [← hlowered, hadmits, if_neg Bool.false_ne_true, if_neg Bool.false_ne_true]
        exact (ih houter).1 hrest
      | decided hlowered hadmits hfound hstop =>
        rw [(hrun _).1 hfound] at hstop ⊢
        rw [← hlowered, hadmits, if_neg Bool.false_ne_true, if_pos rfl, hstop, if_neg Bool.false_ne_true]
      | onward hlowered hadmits hfound hnone hrest =>
        rw [(hrun _).1 hfound] at hnone hrest
        rw [← hlowered, hadmits, if_neg Bool.false_ne_true, if_pos rfl, hnone, if_pos rfl]
        exact (ih houter).1 hrest
    · rintro rfl
      split
      · next hraised => exact .cancelled hraised.symm
      · next hlowered =>
        have hlowered : false = env.cancelled := (Bool.not_eq_true _ ▸ hlowered).symm
        split
        · next hadmits =>
          have hfound := (hrun _).2 rfl
          split
          · next hnone => exact .onward hlowered hadmits hfound hnone ((ih houter).2 rfl)
          · next hstop => exact .decided hlowered hadmits hfound (Bool.not_eq_true _ ▸ hstop)
        · next hadmits => exact .skipped hlowered (Bool.not_eq_true _ ▸ hadmits) ((ih houter).2 rfl)

end ChainRun

/-! ### Lookups -/

namespace Resolver

/-- How a lookup goes. The flag is asked once before the name is looked for. -/
inductive LookupRun (r : Resolver) (chain : ScopeChain) (request : LookupRequest) (answers : Bool → Prop)
    (sink : Diagnostics) : Except Interruption LookupResult × Diagnostics → Prop
  | invalid (hinvalid : request.options.isValid = false) :
      LookupRun r chain request answers sink (.error (.violation (.invalidOptions request.options)), sink)
  | cancelled (hvalid : request.options.isValid = true) (hraised : answers true) :
      LookupRun r chain request answers sink (.error .cancelled, sink)
  | unknown (hvalid : request.options.isValid = true) (hlowered : answers false)
      (hname : r.names.find? request.name = none) : LookupRun r chain request answers sink (.ok .empty, sink)
  | interrupted {name : NameId} {found : Searched} {reason : Interruption} (hvalid : request.options.isValid = true)
      (hlowered : answers false) (hname : r.names.find? request.name = some name)
      (hchain : ChainRun r.table (request.query name) answers chain { sink } found)
      (hreason : found.interruption = some reason) : LookupRun r chain request answers sink (.error reason, found.sink)
  | ended {name : NameId} {found : Searched} (hvalid : request.options.isValid = true)
      (hlowered : answers false) (hname : r.names.find? request.name = some name)
      (hchain : ChainRun r.table (request.query name) answers chain { sink } found)
      (hended : found.interruption = none) : LookupRun r chain request answers sink (.ok found.result, found.sink)

variable {r : Resolver} {chain : ScopeChain} {request : LookupRequest} {sink : Diagnostics}
  {outcome : Except Interruption LookupResult × Diagnostics}

/-- With valid options no rule is broken, whatever the flag says in the course of the lookup. -/
theorem LookupRun.no_violation (h : r.LookupRun chain request answers sink outcome)
    (hvalid : request.options.isValid = true) :
    (∃ result, outcome.1 = .ok result) ∨ outcome.1 = .error .cancelled ∧ answers true := by
  cases h with
  | invalid hinvalid =>
    rw [hvalid] at hinvalid
    cases hinvalid
  | cancelled _ hraised => exact Or.inr ⟨rfl, hraised⟩
  | unknown => exact Or.inl ⟨_, rfl⟩
  | interrupted _ _ _ hchain hreason =>
    rcases (hchain.kept rfl).2 with hnone | ⟨hcancelled, hraised⟩
    · rw [hnone] at hreason
      cases hreason
    · rw [hcancelled] at hreason
      cases hreason
      exact Or.inr ⟨rfl, hraised⟩
  | ended => exact Or.inl ⟨_, rfl⟩

/-- A lookup along scopes of the table and from a place in it ends the way its only run ends. -/
theorem lookupRun_iff (hcontext : ∀ place, request.context.within = some place → r.table.contains place = true)
    (hchain : ∀ x ∈ chain, x.BuiltFrom r.table) (cancelled : Bool) :
    r.LookupRun chain request (fun answer => answer = cancelled) sink outcome ↔
      outcome = r.lookup chain request cancelled sink := by
  have hrun := fun name found => @ChainRun.iff_eq_searchChain (request.query name) chain { sink } found
    ⟨r.table, cancelled⟩ hcontext hchain
  unfold lookup
  constructor
  · intro h
    cases h with
    | invalid hinvalid =>
      rw [hinvalid]
      rfl
    | cancelled hvalid hraised =>
      obtain rfl : true = cancelled := hraised
      rw [hvalid]
      rfl
    | unknown hvalid hlowered hname =>
      obtain rfl : false = cancelled := hlowered
      rw [hvalid, hname]
      rfl
    | interrupted hvalid hlowered hname hfound hreason =>
      obtain rfl : false = cancelled := hlowered
      rw [(hrun _ _).1 hfound] at hreason ⊢
      rw [hvalid, hname]
      simp only [Bool.not_true, Bool.false_eq_true, if_false, hreason]
    | ended hvalid hlowered hname hfound hended =>
      obtain rfl : false = cancelled := hlowered
      rw [(hrun _ _).1 hfound] at hended ⊢
      rw [hvalid, hname]
      simp only [Bool.not_true, Bool.false_eq_true, if_false, hended]
  · rintro rfl
    cases hvalid : request.options.isValid with
    | false => exact .invalid hvalid
    | true =>
      cases cancelled with
      | true => exact .cancelled hvalid rfl
      | false =>
        cases hname : r.names.find? request.name with
        | none => exact .unknown hvalid rfl hname
        | some name =>
          have hfound := (hrun name _).2 rfl
          simp only [Bool.not_true, Bool.false_eq_true, if_false]
          split
          · next reason hreason => exact .interrupted hvalid rfl hname hfound hreason
          · next hended => exact .ended hvalid rfl hname hfound hended

end Resolver

end NameResolution
