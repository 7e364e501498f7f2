import NameResolution.Proofs.Chain.Shadowing

/-! Who asks. Two lookups of one name with the same options come to the same scope and find
the same symbols there, from whatever place and with however many type arguments the name is
used. These only say which of the symbols are usable. -/

namespace NameResolution

open LookupResult (ofCandidates)

/-! ### Sorting candidates -/

/-- The result lists the candidates and nothing else, those that the query accepts among the
symbols and the others among the rejections. -/
structure LookupResult.Classifies (t : SymbolTable) (query : ScopeQuery) (candidates : List SymbolId)
    (r : LookupResult) : Prop where
  mem_symbols_iff : ∀ s, s ∈ r.symbols ↔ s ∈ candidates ∧ query.check t s = .viable
  mem_rejected_iff : ∀ s, s ∈ r.rejected ↔ s ∈ candidates ∧ query.check t s ≠ .viable
  isClear_iff : r.isClear = true ↔ candidates = []

theorem LookupResult.classifies_ofCandidates (t : SymbolTable) (query : ScopeQuery)
    (candidates : List SymbolId) : (ofCandidates t query candidates).Classifies t query candidates := by
  refine ⟨fun s => ?_, fun s => ?_, isClear_ofCandidates_iff⟩
  · rw [symbols_ofCandidates, mem_newByKey, List.mem_filter]
    simp
  · rw [rejected, rejections_ofCandidates, mem_map_newByKey, map_symbol_filterMap_rejection?, List.mem_filter]
    simp

/-! ### Where a lookup stops -/

namespace Resolver

variable {r : Resolver} {chain : ScopeChain} {request : LookupRequest}

/-- The lookup finds nothing before it comes to a level, something at that level, and does
not go on from there. -/
structure StopsAt (r : Resolver) (chain : ScopeChain) (request : LookupRequest) (level : Nat) : Prop where
  clear_before : (r.lookup (chain.take level) request false ∅).1 = .ok .empty
  found : ∃ result, (r.lookup (chain.take (level + 1)) request false ∅).1 = .ok result ∧
    result.isClear = false
  goes_no_further : ∀ sink, r.lookup chain request false sink =
    r.lookup (chain.take (level + 1)) request false sink

/-- A lookup finds something exactly if some scope decides. -/
theorem exists_found_iff {name : NameId} (hvalid : request.options.isValid = true)
    (hname : r.names.find? request.name = some name) (sink : Diagnostics) :
    (∃ result, (r.lookup chain request false sink).1 = .ok result ∧ result.isClear = false) ↔
      ∃ x ∈ chain, x.decides r.table (request.query name) = true := by
  have hclear := @LookupResult.isClear_ofCandidates_iff r.table (request.query name)
    (chain.candidates r.table (request.query name))
  rw [lookup_eq hvalid hname, ← ScopeChain.candidates_ne_nil_iff, Ne, ← hclear]
  simp

theorem lookup_eq_empty_iff {name : NameId} (hvalid : request.options.isValid = true)
    (hname : r.names.find? request.name = some name) (sink : Diagnostics) :
    (r.lookup chain request false sink).1 = .ok .empty ↔
      ∀ x ∈ chain, x.decides r.table (request.query name) = false := by
  have hnone : chain.candidates r.table (request.query name) = [] ↔
      ∀ x ∈ chain, x.decides r.table (request.query name) = false := by
    rw [← not_iff_not, ← Ne, ScopeChain.candidates_ne_nil_iff]
    simp
  rw [lookup_eq hvalid hname, ← hnone]
  constructor
  · intro hempty
    apply LookupResult.isClear_ofCandidates_iff.1
    rw [Except.ok.inj hempty]
    rfl
  · intro hcandidates
    rw [hcandidates]
    rfl

/-- A lookup stops at the innermost scope that decides. -/
theorem stopsAt_iff {name : NameId} (hvalid : request.options.isValid = true)
    (hname : r.names.find? request.name = some name) {level : Nat} :
    r.StopsAt chain request level ↔
      chain.findIdx? (fun x => x.decides r.table (request.query name)) = some level := by
  rw [List.findIdx?_eq_some_iff_getElem]
  constructor
  · rintro ⟨hbefore, hfound, -⟩
    have hnone := (lookup_eq_empty_iff hvalid hname ∅).1 hbefore
    obtain ⟨scope, hmem, hdecides⟩ := (exists_found_iff hvalid hname ∅).1 hfound
    rw [List.take_add_one, List.mem_append, Option.mem_toList] at hmem
    rcases hmem with hmem | hmem
    · rw [hnone scope hmem] at hdecides
      cases hdecides
    · obtain ⟨hlevel, hscope⟩ := List.getElem?_eq_some_iff.1 hmem
      refine ⟨hlevel, hscope ▸ hdecides, fun j hj => ?_⟩
      have hbelow : chain[j] ∈ chain.take level := List.mem_take_iff_getElem.2 ⟨j, by omega, rfl⟩
      simp [hnone _ hbelow]
  · rintro ⟨hlevel, hdecides, hnone⟩
    have hsplit : chain = chain.take level ++ chain[level] :: chain.drop (level + 1) := by simp
    have htake : chain.take (level + 1) = chain.take level ++ [chain[level]] := by
      rw [List.take_add_one, List.getElem?_eq_getElem hlevel]
      rfl
    refine ⟨(lookup_eq_empty_iff hvalid hname ∅).2 fun x hx => ?_,
      (exists_found_iff hvalid hname ∅).2 ⟨chain[level], ?_, hdecides⟩, fun sink => ?_⟩
    · obtain ⟨j, hj, rfl⟩ := List.mem_take_iff_getElem.1 hx
      simpa using hnone j (by omega)
    · rw [htake]
      exact List.mem_append_right _ List.mem_cons_self
    · conv_lhs => rw [hsplit]
      rw [htake, lookup_eq hvalid hname, lookup_eq hvalid hname,
        ScopeChain.candidates_append_cons hdecides, ScopeChain.searched_append_cons hdecides]

theorem not_stopsAt_of_find?_eq_none (hvalid : request.options.isValid = true)
    (hname : r.names.find? request.name = none) (level : Nat) : ¬ r.StopsAt chain request level := by
  rintro ⟨-, ⟨result, hresult, hclear⟩, -⟩
  rw [lookup_of_find?_eq_none hvalid hname] at hresult
  cases hresult
  cases hclear

/-- A lookup finds something exactly if it stops somewhere. -/
theorem exists_found_iff_stopsAt (hvalid : request.options.isValid = true) (sink : Diagnostics) :
    (∃ result, (r.lookup chain request false sink).1 = .ok result ∧ result.isClear = false) ↔
      ∃ level, r.StopsAt chain request level := by
  cases hname : r.names.find? request.name with
  | none =>
    rw [lookup_of_find?_eq_none hvalid hname]
    refine iff_of_false ?_ fun ⟨level, hstops⟩ => not_stopsAt_of_find?_eq_none hvalid hname level hstops
    rintro ⟨result, hresult, hclear⟩
    cases hresult
    cases hclear
  | some name =>
    simp only [exists_found_iff hvalid hname, stopsAt_iff hvalid hname, ← Option.isSome_iff_exists,
      List.findIdx?_isSome, List.any_eq_true]

section

variable {first second : LookupRequest} (hname : first.name = second.name)
  (hoptions : first.options = second.options) (hvalid : first.options.isValid = true)
include hname hoptions hvalid

theorem stopsAt_congr {level : Nat} : r.StopsAt chain first level ↔ r.StopsAt chain second level := by
  have hvalid' : second.options.isValid = true := hoptions ▸ hvalid
  cases hfind : r.names.find? first.name with
  | none =>
    have hfind' : r.names.find? second.name = none := hname ▸ hfind
    exact iff_of_false (not_stopsAt_of_find?_eq_none hvalid hfind level)
      (not_stopsAt_of_find?_eq_none hvalid' hfind' level)
  | some name =>
    have hfind' : r.names.find? second.name = some name := hname ▸ hfind
    have hsame : (first.query name).name = (second.query name).name := rfl
    rw [stopsAt_iff hvalid hfind, stopsAt_iff hvalid' hfind']
    simp only [Scope.decides_congr hsame hoptions]

/-- Both requests have the same candidates and report the same diagnostics. -/
theorem exists_same_candidates {name : NameId} (hfind : r.names.find? first.name = some name)
    (sink : Diagnostics) : ∃ candidates sink',
      r.lookup chain first false sink = (.ok (ofCandidates r.table (first.query name) candidates), sink') ∧
      r.lookup chain second false sink =
        (.ok (ofCandidates r.table (second.query name) candidates), sink') := by
  have hvalid' : second.options.isValid = true := hoptions ▸ hvalid
  have hfind' : r.names.find? second.name = some name := hname ▸ hfind
  have hsame : (first.query name).name = (second.query name).name := rfl
  refine ⟨_, _, lookup_eq hvalid hfind chain sink, ?_⟩
  rw [lookup_eq hvalid' hfind' chain sink, ScopeChain.candidates_congr hsame hoptions,
    ScopeChain.searched_congr hsame hoptions]
  simp only [Scope.findings_congr hsame hoptions]

end

/-- Two requests for one name with the same options have the same candidates, report the same
diagnostics and stop at the same level. What else they ask for decides which candidates are
accepted and nothing more. -/
theorem lookups_differ_only_in_classification (r : Resolver) (chain : ScopeChain)
    (first second : LookupRequest) (hname : first.name = second.name)
    (hoptions : first.options = second.options) (hvalid : first.options.isValid = true)
    (sink : Diagnostics) :
    ∃ candidates result result' sink',
      r.lookup chain first false sink = (.ok result, sink') ∧
      r.lookup chain second false sink = (.ok result', sink') ∧
      (∀ s, s ∈ result.symbols ∨ s ∈ result.rejected ↔ s ∈ result'.symbols ∨ s ∈ result'.rejected) ∧
      result.isClear = result'.isClear ∧
      (result.isClear = false ↔ ∃ level, r.StopsAt chain first level) ∧
      (∀ level, r.StopsAt chain first level ↔ r.StopsAt chain second level) ∧
      ∀ name, r.names.find? first.name = some name →
        result.Classifies r.table (first.query name) candidates ∧
          result'.Classifies r.table (second.query name) candidates := by
  have hvalid' : second.options.isValid = true := hoptions ▸ hvalid
  have hstops := fun level => @stopsAt_congr r chain first second hname hoptions hvalid level
  have hfound := @exists_found_iff_stopsAt r chain first hvalid sink
  cases hfind : r.names.find? first.name with
  | none =>
    have hfind' : r.names.find? second.name = none := hname ▸ hfind
    have hlookup := lookup_of_find?_eq_none hvalid hfind chain sink
    rw [hlookup] at hfound
    refine ⟨[], .empty, .empty, sink, hlookup, lookup_of_find?_eq_none hvalid' hfind' chain sink,
      fun s => Iff.rfl, rfl, ?_, hstops, fun name hsome => by cases hsome⟩
    rw [← hfound]
    simp
  | some name =>
    obtain ⟨candidates, sink', hlookup, hlookup'⟩ :=
      @exists_same_candidates r chain first second hname hoptions hvalid name hfind sink
    have hresult := LookupResult.classifies_ofCandidates r.table (first.query name) candidates
    have hresult' := LookupResult.classifies_ofCandidates r.table (second.query name) candidates
    rw [hlookup] at hfound
    refine ⟨candidates, _, _, sink', hlookup, hlookup', fun s => ?_, ?_, ?_, hstops, ?_⟩
    · rw [LookupResult.mem_ofCandidates_iff, LookupResult.mem_ofCandidates_iff]
    · rw [Bool.eq_iff_iff]
      exact hresult.isClear_iff.trans hresult'.isClear_iff.symm
    · rw [← hfound]
      simp
    · rintro _ ⟨⟩
      exact ⟨hresult, hresult'⟩

/-- Inside the type its private field is usable, outside it is turned down without a reason. -/
theorem lookups_differ_only_in_classification_privateField :
    let r := privateFieldBeforeLocal
    let block : Scope := .ofLocals { kind := .block, locals := (∅ : NameTable).insert ⟨1⟩ ⟨3⟩ }
    let chain : ScopeChain := [.ofLocals { kind := .lambda }, .ofType ⟨1⟩, block]
    let inside : LookupRequest := { name := "x", context := { within := some ⟨1⟩ } }
    let outside : LookupRequest := { name := "x", arity := 2, context := { module := ⟨7⟩ }, diagnose := false }
    inside.name = outside.name ∧ inside.options = outside.options ∧ inside.options.isValid = true ∧
      (r.lookup chain inside false ∅).1 = .ok ⟨.viable, [⟨2⟩], []⟩ ∧ r.StopsAt chain outside 1 ∧
      ∃ result, (r.lookup chain outside false ∅).1 = .ok result ∧ result.isClear = false ∧
        (⟨2⟩ ∈ result.symbols ∨ ⟨2⟩ ∈ result.rejected) ∧ result.symbols = [] := by
  intro r block chain inside outside
  have hvalid : inside.options.isValid = true := by decide
  have hname : r.names.find? inside.name = some ⟨1⟩ := Interner.find?_eq_some_iff.2 rfl
  have hinside : (r.lookup chain inside false ∅).1 = .ok ⟨.viable, [⟨2⟩], []⟩ := by decide +kernel
  have hstops : r.StopsAt chain inside 1 := (stopsAt_iff hvalid hname).2 (by decide +kernel)
  obtain ⟨candidates, result, result', sink', hlookup, hlookup', hfound, hclear, -, hlevels, hsorted⟩ :=
    lookups_differ_only_in_classification r chain inside outside rfl rfl hvalid ∅
  have hrejects : (outside.query ⟨1⟩).check r.table ⟨2⟩ ≠ .viable := by decide +kernel
  rw [hlookup] at hinside
  cases hinside
  have hmem : ⟨2⟩ ∈ result'.symbols ∨ ⟨2⟩ ∈ result'.rejected := (hfound ⟨2⟩).1 (Or.inl List.mem_cons_self)
  have hnone : result'.symbols = [] := by
    refine List.eq_nil_iff_forall_not_mem.2 fun s hs => ?_
    have hs' : s = ⟨2⟩ := by simpa [LookupResult.rejected] using (hfound s).2 (Or.inl hs)
    subst hs'
    exact hrejects (((hsorted ⟨1⟩ hname).2.mem_symbols_iff ⟨2⟩).1 hs).2
  exact ⟨rfl, rfl, hvalid, congrArg Prod.fst hlookup, (hlevels 1).1 hstops, result',
    congrArg Prod.fst hlookup', hclear.symm, hmem, hnone⟩

end Resolver

end NameResolution
