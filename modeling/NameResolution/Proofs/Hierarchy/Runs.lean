import NameResolution.Proofs.Access.Runs
import NameResolution.Proofs.Inheritance.Exploration
import NameResolution.Scope.Hierarchy

/-! Runs of the search of a type and its base types, with no bound on their depth. A run
follows the search call by call, so that there is one only if the search comes to an end.
Whatever the cancellation flag says in the course of a run, the stack is left as it was. -/

namespace NameResolution

/-! ### Candidates -/

/-- How candidates are considered one after the other, each after its own check. -/
inductive ConsiderRun (t : SymbolTable) (query : ScopeQuery) : List SymbolId → Search → Search → Prop
  | done {s : Search} : ConsiderRun t query [] s s
  | next {candidate : SymbolId} {rest : List SymbolId} {verdict : Viability} {s ended : Search}
      (hcheck : query.CheckRun t candidate verdict)
      (hrest : ConsiderRun t query rest
        { s with
          result := s.result.addCandidate t query.diagnose candidate verdict
          sink := Diagnostics.record s.sink t candidate } ended) :
      ConsiderRun t query (candidate :: rest) s ended

namespace ConsiderRun

theorem stack_eq {t : SymbolTable} {query : ScopeQuery} {candidates : List SymbolId} {s ended : Search}
    (h : ConsiderRun t query candidates s ended) : ended.stack = s.stack := by
  induction h with
  | done => rfl
  | next _ _ ih => exact ih

/-- Symbols of the table are considered in one way only. -/
theorem iff_eq_considerAll {env : SearchEnv} {query : ScopeQuery} {candidates : List SymbolId} {s ended : Search}
    (hcontext : ∀ place, query.context.within = some place → env.table.contains place = true)
    (hcandidates : ∀ c ∈ candidates, env.table.contains c = true) :
    ConsiderRun env.table query candidates s ended ↔ ended = s.considerAll env query candidates := by
  induction candidates generalizing s with
  | nil =>
    constructor
    · rintro ⟨⟩
      rfl
    · rintro rfl
      exact .done
  | cons candidate rest ih =>
    obtain ⟨hcandidate, hrest⟩ := List.forall_mem_cons.1 hcandidates
    have hcheck := fun verdict => @ScopeQuery.checkRun_iff query env.table candidate verdict hcontext hcandidate
    constructor
    · rintro ⟨_⟩
      next verdict hverdict hended =>
        rw [(hcheck verdict).1 hverdict] at hended
        exact (ih hrest).1 hended
    · intro hended
      exact .next ((hcheck _).2 rfl) ((ih hrest).2 hended)

end ConsiderRun

/-! ### Types -/

/-- A call that searches a type, or one that searches those of its bases that are left. -/
inductive HierarchyCall where
  | type (ty : SymbolId)
  | bases (pending : List SymbolId)

/-- How a call ends. The flag is asked before a type is entered and answers anything that
`answers` admits. A type that has been entered considers its own members first. -/
inductive HierarchyRun (t : SymbolTable) (query : ScopeQuery) (answers : Bool → Prop) :
    HierarchyCall → Search → Searched → Prop
  | cancelled {ty : SymbolId} {s : Search} (hraised : answers true) :
      HierarchyRun t query answers (.type ty) s (s.interrupted .cancelled)
  | cycle {ty : SymbolId} {s : Search} (hlowered : answers false)
      (hpush : BaseStack.push? s.stack ty = none) :
      HierarchyRun t query answers (.type ty) s
        (Search.done { s with sink := s.sink.insert (.inheritanceCycle ty) })
  | declared {ty : SymbolId} {s own : Search} {stack : BaseStack} (hlowered : answers false)
      (hpush : BaseStack.push? s.stack ty = some stack)
      (hown : ConsiderRun t query (t.membersNamed ty query.name) { s with stack } own)
      (hfound : own.result.isClear = false) : HierarchyRun t query answers (.type ty) s (own.done.leave ty)
  | inherited {ty : SymbolId} {s own : Search} {stack : BaseStack} {found : Searched}
      (hlowered : answers false) (hpush : BaseStack.push? s.stack ty = some stack)
      (hown : ConsiderRun t query (t.membersNamed ty query.name) { s with stack } own)
      (hclear : own.result.isClear = true) (hbases : HierarchyRun t query answers (.bases (t.bases ty)) own found) :
      HierarchyRun t query answers (.type ty) s (found.leave ty)
  | noBases {s : Search} : HierarchyRun t query answers (.bases []) s s.done
  | interrupted {base : SymbolId} {rest : List SymbolId} {s : Search} {found : Searched}
      {reason : Interruption} (hbase : HierarchyRun t query answers (.type base) s.afresh found)
      (hreason : found.interruption = some reason) :
      HierarchyRun t query answers (.bases (base :: rest)) s { found with result := s.result }
  | next {base : SymbolId} {rest : List SymbolId} {s : Search} {found ended : Searched}
      (hbase : HierarchyRun t query answers (.type base) s.afresh found)
      (hended : found.interruption = none)
      (hrest : HierarchyRun t query answers (.bases rest)
        { found with result := s.result.merge t found.result } ended) :
      HierarchyRun t query answers (.bases (base :: rest)) s ended

namespace HierarchyRun

variable {t : SymbolTable} {query : ScopeQuery} {answers : Bool → Prop}

/-! ### Every run leaves the stack as it was -/

/-- A type is left after a search that has kept the stack. -/
theorem leave_eq {ty : SymbolId} {s : Search} {stack : BaseStack} {found : Searched}
    (hpush : BaseStack.push? s.stack ty = some stack) (hkept : found.stack = stack) :
    found.leave ty = { found with stack := s.stack } := by
  apply Searched.leave_of_push?
  rw [hpush, hkept]

theorem stack_eq {call : HierarchyCall} {s : Search} {found : Searched}
    (h : HierarchyRun t query answers call s found) : found.stack = s.stack := by
  induction h with
  | cancelled hraised => rfl
  | cycle hlowered hpush => rfl
  | declared hlowered hpush hown hfound => rw [leave_eq hpush hown.stack_eq]
  | inherited hlowered hpush hown hclear hbases ih => rw [leave_eq hpush (ih.trans hown.stack_eq)]
  | noBases => rfl
  | interrupted hbase hreason ih => exact ih
  | next hbase hended hrest ihBase ihRest => exact ihRest.trans ihBase

/-- Nothing but the flag interrupts a run. -/
theorem interruption_eq {call : HierarchyCall} {s : Search} {found : Searched}
    (h : HierarchyRun t query answers call s found) :
    found.interruption = none ∨ found.interruption = some .cancelled ∧ answers true := by
  induction h with
  | cancelled hraised => exact Or.inr ⟨rfl, hraised⟩
  | cycle hlowered hpush => exact Or.inl rfl
  | declared hlowered hpush hown hfound =>
    rw [leave_eq hpush hown.stack_eq]
    exact Or.inl rfl
  | inherited hlowered hpush hown hclear hbases ih =>
    rw [leave_eq hpush (hbases.stack_eq.trans hown.stack_eq)]
    exact ih
  | noBases => exact Or.inl rfl
  | interrupted hbase hreason ih => exact ih
  | next hbase hended hrest ihBase ihRest => exact ihRest

/-! ### Runs and the search -/

section

variable (hcontext : ∀ place, query.context.within = some place → t.contains place = true)
include hcontext

theorem considerRun_members_iff {ty : SymbolId} {s own : Search} (cancelled : Bool) :
    ConsiderRun t query (t.membersNamed ty query.name) s own ↔
      own = s.considerAll ⟨t, cancelled⟩ query (t.membersNamed ty query.name) :=
  @ConsiderRun.iff_eq_considerAll ⟨t, cancelled⟩ query _ s own hcontext
    fun _ => SymbolTable.contains_of_mem_membersNamed

/-- A flag that does not change allows one run only. -/
theorem unique (hanswers : ∀ a b, answers a → answers b → a = b) {call : HierarchyCall} {s : Search}
    {found found' : Searched} (h : HierarchyRun t query answers call s found)
    (h' : HierarchyRun t query answers call s found') : found = found' := by
  have hsame : ∀ {ty : SymbolId} {s own own' : Search} {stack stack' : BaseStack},
      BaseStack.push? s.stack ty = some stack → BaseStack.push? s.stack ty = some stack' →
        ConsiderRun t query (t.membersNamed ty query.name) { s with stack } own →
          ConsiderRun t query (t.membersNamed ty query.name) { s with stack := stack' } own' → own = own' := by
    intro ty s own own' stack stack' hpush hpush' hown hown'
    cases hpush.symm.trans hpush'
    exact ((considerRun_members_iff hcontext false).1 hown).trans
      ((considerRun_members_iff hcontext false).1 hown').symm
  induction h generalizing found' with
  | cancelled hraised =>
    cases h' with
    | cancelled => rfl
    | cycle hlowered | declared hlowered | inherited hlowered =>
      exact absurd (hanswers _ _ hraised hlowered) (by decide)
  | cycle hlowered hpush =>
    cases h' with
    | cancelled hraised => exact absurd (hanswers _ _ hraised hlowered) (by decide)
    | cycle => rfl
    | declared _ hpush' | inherited _ hpush' => rw [hpush] at hpush'; cases hpush'
  | declared hlowered hpush hown hfound =>
    cases h' with
    | cancelled hraised => exact absurd (hanswers _ _ hraised hlowered) (by decide)
    | cycle _ hpush' => rw [hpush] at hpush'; cases hpush'
    | declared _ hpush' hown' => rw [hsame hpush hpush' hown hown']
    | inherited _ hpush' hown' hclear =>
      rw [hsame hpush hpush' hown hown', hclear] at hfound
      cases hfound
  | inherited hlowered hpush hown hclear hbases ih =>
    cases h' with
    | cancelled hraised => exact absurd (hanswers _ _ hraised hlowered) (by decide)
    | cycle _ hpush' => rw [hpush] at hpush'; cases hpush'
    | declared _ hpush' hown' hfound =>
      rw [hsame hpush hpush' hown hown', hfound] at hclear
      cases hclear
    | inherited _ hpush' hown' _ hbases' =>
      cases hsame hpush hpush' hown hown'
      rw [ih hbases']
  | noBases =>
    cases h'
    rfl
  | interrupted hbase hreason ih =>
    cases h' with
    | interrupted hbase' => rw [ih hbase']
    | next hbase' hended =>
      rw [ih hbase', hended] at hreason
      cases hreason
  | next hbase hended hrest ihBase ihRest =>
    cases h' with
    | interrupted hbase' hreason =>
      rw [ihBase hbase', hreason] at hended
      cases hended
    | next hbase' _ hrest' =>
      cases ihBase hbase'
      exact ihRest hrest'

end

theorem run_searchBases {searchType : SymbolId → Search → Searched} {stack : BaseStack}
    {bases : List SymbolId} (hkept : ∀ ty s, (searchType ty s).stack = s.stack)
    (h : ∀ base ∈ bases, ∀ s : Search, s.stack = stack →
      HierarchyRun t query answers (.type base) s (searchType base s)) (s : Search) (hs : s.stack = stack) :
    HierarchyRun t query answers (.bases bases) s (searchBases t searchType bases s) := by
  induction bases generalizing s with
  | nil => exact .noBases
  | cons base rest ih =>
    have hbase := h base List.mem_cons_self s.afresh hs
    rw [searchBases]
    split
    · next reason hreason =>
      rw [← hreason]
      exact .interrupted hbase hreason
    · next hended =>
      refine .next hbase hended (ih (fun b hb => h b (List.mem_cons_of_mem base hb)) _ ?_)
      exact (hkept base s.afresh).trans hs

/-- The bound on the depth of a search is never reached: along a path each type that has
bases uses up one of the symbols that are not on the stack. -/
theorem run_searchHierarchyTo (env : SearchEnv)
    (hcontext : ∀ place, query.context.within = some place → env.table.contains place = true) (depth : Nat)
    (ty : SymbolId) (s : Search) (hdepth : env.table.unseen s.stack.toList < depth) :
    HierarchyRun env.table query (fun answer => answer = env.cancelled) (.type ty) s
      (searchHierarchyTo env query depth ty s) := by
  induction depth generalizing ty s with
  | zero => exact absurd hdepth (Nat.not_lt_zero _)
  | succ depth ih =>
    rw [searchHierarchyTo]
    cases hcancelled : env.cancelled with
    | true => exact .cancelled rfl
    | false =>
      rw [hcancelled] at ih
      rw [if_neg Bool.false_ne_true]
      split
      · next hpush => exact .cycle rfl hpush
      · next stack hpush =>
        have hown : ConsiderRun env.table query (env.table.membersNamed ty query.name) { s with stack } _ :=
          (considerRun_members_iff hcontext env.cancelled).2 rfl
        dsimp only
        split
        · next hclear =>
          refine .inherited rfl hpush hown hclear ?_
          have hnew : ty ∉ s.stack := fun hmem => by
            rw [BaseStack.push?, if_pos hmem] at hpush
            cases hpush
          rw [BaseStack.push?, if_neg hnew] at hpush
          cases hpush
          refine run_searchBases (stack_searchHierarchyTo env query depth) (fun base hbase s' hs' => ?_) _
            hown.stack_eq
          have hless := SymbolTable.unseen_insert_lt hbase hnew
          exact ih base s' (hs' ▸ Nat.lt_of_lt_of_le hless (Nat.le_of_lt_succ hdepth))
        · next hfound =>
          exact .declared rfl hpush hown (Bool.not_eq_true _ ▸ hfound)

end HierarchyRun

/-- The search of a type ends the way its only run ends. -/
theorem run_iff_eq_searchHierarchy {env : SearchEnv} {query : ScopeQuery} {ty : SymbolId} {s : Search}
    {found : Searched} (hcontext : ∀ place, query.context.within = some place → env.table.contains place = true) :
    HierarchyRun env.table query (fun answer => answer = env.cancelled) (.type ty) s found ↔
      found = searchHierarchy env query ty s := by
  have hrun := HierarchyRun.run_searchHierarchyTo env hcontext (env.table.size + 1) ty s
    (Nat.lt_succ_of_le (env.table.unseen_le_size _))
  constructor
  · exact fun h => h.unique hcontext (fun a b ha hb => ha.trans hb.symm) hrun
  · rintro rfl
    exact hrun

end NameResolution
