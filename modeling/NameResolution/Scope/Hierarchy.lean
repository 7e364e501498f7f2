import NameResolution.Scope.Search

/-! The search for members of a type and of its base types. Members of a type hide
inherited members of the same name, what sibling bases contribute is merged, and a type
that is met again while its own bases are being searched closes a cycle. -/

namespace NameResolution

/-- Searches the base types in order and merges what each of them contributes. -/
def searchBases (t : SymbolTable) (searchType : SymbolId → Search → Searched) :
    List SymbolId → Search → Searched
  | [], s => s.done
  | base :: rest, s =>
    let inherited := searchType base s.afresh
    match inherited.interruption with
    | some reason => { inherited with result := s.result, interruption := some reason }
    | none =>
      searchBases t searchType rest
        { inherited with result := s.result.merge t inherited.result }

/-- Searches a type and, if it declares nothing by the name, its base types. At most
`depth` types are entered one inside the other. -/
def searchHierarchyTo (env : SearchEnv) (query : ScopeQuery) : Nat → SymbolId → Search → Searched
  | 0, _, s => s.done
  | depth + 1, ty, s =>
    if env.cancelled then s.interrupted .cancelled
    else match BaseStack.push? s.stack ty with
    | none => { s with sink := s.sink.insert (.inheritanceCycle ty) }
    | some stack =>
      let own := Search.considerAll env query { s with stack } (env.table.membersNamed ty query.name)
      if own.result.isClear then
        (searchBases env.table (searchHierarchyTo env query depth) (env.table.bases ty) own).leave ty
      else own.done.leave ty

/-- No type is on the stack twice, so the number of symbols bounds the depth. -/
def searchHierarchy (env : SearchEnv) (query : ScopeQuery) (ty : SymbolId) (s : Search) : Searched :=
  searchHierarchyTo env query (env.table.size + 1) ty s

/-! ### The stack is left as it was -/

theorem stack_searchBases (t : SymbolTable) {searchType : SymbolId → Search → Searched}
    (h : ∀ ty s, (searchType ty s).stack = s.stack) (bases : List SymbolId) (s : Search) :
    (searchBases t searchType bases s).stack = s.stack := by
  induction bases generalizing s with
  | nil => rfl
  | cons base rest ih =>
    rw [searchBases]
    split
    · exact h base s.afresh
    · rw [ih]
      exact h base s.afresh

theorem stack_searchHierarchyTo (env : SearchEnv) (query : ScopeQuery) (depth : Nat) (ty : SymbolId)
    (s : Search) : (searchHierarchyTo env query depth ty s).stack = s.stack := by
  induction depth generalizing ty s with
  | zero => rfl
  | succ depth ih =>
    rw [searchHierarchyTo]
    split
    · rfl
    · split
      · rfl
      · next hpush =>
        dsimp only
        split
        · rw [Searched.leave_of_push?]
          rw [stack_searchBases _ ih, Search.stack_considerAll]
          exact hpush
        · rw [Searched.leave_of_push?]
          rw [Search.done, Search.stack_considerAll]
          exact hpush

end NameResolution
