import NameResolution.Proofs.Chain.Completion

/-! What scopes hold. A scope that is made of symbols of a table offers symbols of the table
under their own names, be they its own entries, members or inherited members. -/

namespace NameResolution

variable {t : SymbolTable}

/-! ### Tables of a scope -/

namespace NameTable

theorem get_insert (table : NameTable) (name other : NameId) (s : SymbolId) :
    (table.insert other s).get name =
      table.get name ++ newByKey id (table.get name) (if other = name then [s] else []) := by
  by_cases hname : other = name
  · subst hname
    rw [if_pos rfl]
    by_cases hs : s ∈ table.get other
    · rw [newByKey_cons_of_mem hs, newByKey_nil, List.append_nil, insert,
        OrderedSet.insert_of_mem (mem_get.1 hs)]
    · rw [newByKey_cons_of_not_mem hs, newByKey_nil, get_insert_self hs]
  · rw [if_neg hname, newByKey_nil, List.append_nil, get_insert_of_ne (Ne.symm hname)]

/-- A symbol that is declared again keeps its place. -/
theorem get_declare (t : SymbolTable) (table : NameTable) (symbols : List SymbolId) (name : NameId) :
    (declare t table symbols).get name =
      table.get name ++ newByKey id (table.get name) (symbols.filter fun s => (t.data s).name = name) := by
  have hstep : ∀ (table : NameTable) (s : SymbolId), (table.insert (t.data s).name s).get name =
      table.get name ++ newByKey id ((table.get name).map id)
        (Option.guard (fun s => decide ((t.data s).name = name)) s).toList := by
    intro table s
    rw [List.map_id, get_insert]
    by_cases hname : (t.data s).name = name <;> simp [Option.guard, hname]
  have h := @foldl_append_newByKey SymbolId SymbolId _ id NameTable SymbolId _ (fun table => table.get name) _
    hstep table symbols
  rwa [List.map_id, List.filterMap_eq_filter] at h

/-- Symbols are recorded under their own names. -/
theorem mem_get_declare {table : NameTable} {symbols : List SymbolId} {name : NameId} {s : SymbolId} :
    s ∈ (declare t table symbols).get name ↔ s ∈ table.get name ∨ s ∈ symbols ∧ (t.data s).name = name := by
  rw [get_declare, List.mem_append, mem_newByKey, List.mem_filter, decide_eq_true_iff]
  by_cases hs : s ∈ table.get name <;> simp [hs]

theorem mem_get_declare_empty {symbols : List SymbolId} {name : NameId} {s : SymbolId} :
    s ∈ (declare t ∅ symbols).get name ↔ s ∈ symbols ∧ (t.data s).name = name :=
  mem_get_declare.trans (or_iff_right List.not_mem_nil)

end NameTable

/-! ### Scopes of a table -/

/-- The scope is made of symbols of the table. -/
inductive Scope.BuiltFrom (t : SymbolTable) : Scope → Prop where
  | ofNamespace (container : SymbolId) (h : t.contains container = true) : BuiltFrom t (.ofNamespace container)
  | imports (namespaces aliases : List SymbolId) (hnamespaces : ∀ s ∈ namespaces, t.contains s = true)
      (haliases : ∀ s ∈ aliases, t.contains s = true) : BuiltFrom t (.imports t namespaces aliases)
  | ofType (ty : SymbolId) (h : t.contains ty = true) : BuiltFrom t (.ofType ty)
  | typeParameters (level : GenericLevel) (owner : SymbolId) (parameters : List SymbolId)
      (howner : t.contains owner = true) (hparameters : ∀ s ∈ parameters, t.contains s = true) :
      BuiltFrom t (.typeParameters t level owner parameters)
  | locals (kind : LocalScopeKind) (bound labels : List SymbolId) (hbound : ∀ s ∈ bound, t.contains s = true)
      (hlabels : ∀ s ∈ labels, t.contains s = true) : BuiltFrom t (.locals t kind bound labels)

/-- What a scope offers for a query are symbols of the table that have the name. -/
theorem Scope.BuiltFrom.of_mem_candidates {scope : Scope} (h : scope.BuiltFrom t) (howned : t.MembersOwned)
    {query : ScopeQuery} {s : SymbolId} (hs : s ∈ scope.candidates t query ∅) :
    t.contains s = true ∧ (t.data s).name = query.name := by
  have hmember : ∀ c, s ∈ t.membersNamed c query.name → t.contains s = true ∧ (t.data s).name = query.name := by
    intro c hc
    exact ⟨SymbolTable.contains_of_mem_membersNamed hc, (howned c query.name s hc).2⟩
  have hdeclared : ∀ symbols : List SymbolId, (∀ x ∈ symbols, t.contains x = true) →
      s ∈ (NameTable.declare t ∅ symbols).get query.name →
        t.contains s = true ∧ (t.data s).name = query.name := by
    intro symbols hsymbols hget
    exact (NameTable.mem_get_declare_empty.1 hget).imp_left (hsymbols s)
  cases h with
  | ofNamespace container _ => exact hmember container hs
  | ofType ty _ =>
    obtain ⟨owner, -, howner⟩ := SymbolTable.mem_hierarchyCandidates_iff.1 hs
    exact hmember owner howner
  | typeParameters level owner parameters _ hparameters => exact hdeclared parameters hparameters hs
  | locals kind bound labels hbound hlabels =>
    simp only [Scope.locals, candidates, LocalScope.table] at hs
    split at hs
    · exact hdeclared labels hlabels hs
    · exact hdeclared bound hbound hs
  | imports namespaces aliases _ haliases =>
    simp only [Scope.imports, candidates, ImportScope.candidates] at hs
    split at hs
    · simp only [ImportScope.types, List.mem_flatMap, List.mem_filter] at hs
      obtain ⟨container, -, hmem, -⟩ := hs
      exact hmember container hmem
    · exact hdeclared aliases haliases hs

namespace ScopeChain

variable {chain : ScopeChain} (hchain : ∀ x ∈ chain, x.BuiltFrom t) (howned : t.MembersOwned)
include hchain howned

theorem of_mem_candidates {query : ScopeQuery} {s : SymbolId} (hs : s ∈ chain.candidates t query) :
    t.contains s = true ∧ (t.data s).name = query.name := by
  obtain ⟨x, hx, hs⟩ := mem_candidates_iff.1 hs
  exact (hchain x (mem_of_mem_searched hx)).of_mem_candidates howned hs

/-- The names that are visible along a chain are names of symbols. -/
theorem exists_symbol_of_mem_visibleNames {options : LookupOptions} {name : NameId}
    (hname : name ∈ chain.visibleNames t options) : ∃ s, t.contains s = true ∧ (t.data s).name = name := by
  have hfound := (@mem_visibleNames_iff t ⟨name, 0, options, {}, true⟩ chain).1 hname
  obtain ⟨s, hs⟩ := List.exists_mem_of_ne_nil _ hfound
  exact ⟨s, of_mem_candidates hchain howned hs⟩

end ScopeChain

end NameResolution
