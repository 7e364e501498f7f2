import Mathlib.Data.Set.List
import NameResolution.Proofs.Chain.Entries
import NameResolution.Proofs.Chain.Resolving
import NameResolution.Proofs.Diagnostics.ProblemReports
import NameResolution.Proofs.Tables.Naming

/-! Names that no symbol has. A lookup of a text that was never interned is cut short, and one
of a text that was interned for some other reason walks the whole chain. Both find nothing
and report no problem, so that a resolution gives the same error with the same suggestions. -/

namespace NameResolution

open LookupResult (ofCandidates)

/-- Names that were interned later are not names of symbols, unless their texts are. -/
theorem Builder.NamesInterned.name_ne {b : Builder} (h : b.NamesInterned) {later : Interner} {text : String}
    {name : NameId} (hlater : b.names.ExtendedBy later)
    (htext : ∀ s, b.table.contains s = true → b.names.text (b.table.data s).name ≠ text)
    (hname : later.find? text = some name) {s : SymbolId} (hs : b.table.contains s = true) :
    (b.table.data s).name ≠ name := by
  rintro rfl
  apply htext s hs
  rw [← hlater.text_eq (h s hs), Interner.text, Interner.find?_eq_some_iff.1 hname]
  rfl

/-- Scopes without candidates report nothing but cycles. -/
theorem Scope.exists_cycle_of_mem_findings {t : SymbolTable} {query : ScopeQuery} {scope : Scope}
    (hnone : scope.candidates t query ∅ = []) {d : UseSiteDiagnostic} (hd : d ∈ scope.findings t query ∅) :
    ∃ ty, .inheritanceCycle ty = d := by
  cases d with
  | inheritanceCycle ty => exact ⟨ty, rfl⟩
  | problem s p =>
    have hs := (problem_mem_findings.1 hd).1
    rw [hnone] at hs
    cases hs

namespace Resolver

variable {r : Resolver} {chain : ScopeChain} {request : LookupRequest}

/-- A lookup of a name that no scope has a candidate for. -/
theorem lookup_of_no_candidates {name : NameId} (hvalid : request.options.isValid = true)
    (hname : r.names.find? request.name = some name)
    (hnone : ∀ x ∈ chain, x.candidates r.table (request.query name) ∅ = []) (sink : Diagnostics) :
    ∃ (sink' : Diagnostics) (cycles : List SymbolId),
      r.lookup chain request false sink = (.ok .empty, sink') ∧
      sink'.toList = sink.toList ++ cycles.map .inheritanceCycle := by
  have hcandidates : chain.candidates r.table (request.query name) = [] := by
    refine List.eq_nil_iff_forall_not_mem.2 fun s hs => ?_
    obtain ⟨x, hx, hs⟩ := ScopeChain.mem_candidates_iff.1 hs
    rw [hnone x (ScopeChain.mem_of_mem_searched hx)] at hs
    cases hs
  let reported := (chain.searched r.table (request.query name)).flatMap fun x =>
    x.findings r.table (request.query name) ∅
  have hcycles : newByKey id sink.toList reported ∈ Set.range (List.map UseSiteDiagnostic.inheritanceCycle) := by
    rw [Set.range_list_map]
    intro d hd
    obtain ⟨x, hx, hd⟩ := List.mem_flatMap.1 (mem_newByKey.1 hd).1
    exact Scope.exists_cycle_of_mem_findings (hnone x (ScopeChain.mem_of_mem_searched hx)) hd
  obtain ⟨cycles, hcycles⟩ := hcycles
  refine ⟨sink.insertAll reported, cycles, ?_, ?_⟩
  · rw [lookup_eq hvalid hname, hcandidates]
    rfl
  · rw [OrderedSet.toList_insertAll, hcycles]

/-- The texts of the visible names do not depend on what else was interned. -/
theorem visibleTexts_of_extendedBy {b : Builder} (h : b.NamesInterned) (howned : b.table.MembersOwned)
    {later : Interner} (hlater : b.names.ExtendedBy later) (hchain : ∀ x ∈ chain, x.BuiltFrom b.table)
    (settings : SuggestionSettings) (options : LookupOptions) :
    visibleTexts ⟨later, b.table, settings⟩ chain options =
      visibleTexts ⟨b.names, b.table, settings⟩ chain options := by
  apply List.map_congr_left
  intro name hname
  obtain ⟨s, hs, rfl⟩ := ScopeChain.exists_symbol_of_mem_visibleNames hchain howned hname
  exact hlater.text_eq (h s hs)

/-- A text that is not the name of a symbol is undefined along every chain of scopes of the
table, with suggestions that do not depend on what was interned after the table was built.
If the text was never interned, the sink stays as it is, and otherwise it gains reports of
cycles alone. -/
theorem unknown_names_undefined (names : Interner) (steps : List Declaration)
    (hsteps : (Builder.start names).eachStep Builder.knowsName steps = true) (settings : SuggestionSettings)
    (chain : ScopeChain) (request : LookupRequest) (hvalid : request.options.isValid = true) :
    let b := (Builder.start names).declareAll steps
    let visible := visibleTexts ⟨b.names, b.table, settings⟩ chain request.options
    let undefined := ResolutionError.undefined request.name (suggestions settings request.name visible)
    (∀ x ∈ chain, x.BuiltFrom b.table) →
    (∀ s, b.table.contains s = true → b.names.text (b.table.data s).name ≠ request.name) →
      ∀ (later : Interner) (sink : Diagnostics), b.names.ExtendedBy later →
        let r : Resolver := ⟨later, b.table, settings⟩
        ∃ sink', r.lookup chain request false sink = (.ok .empty, sink') ∧
          r.resolve chain request false sink = (.error (.unresolved undefined), sink') ∧
          (later.find? request.name = none → sink' = sink) ∧
          ∃ cycles : List SymbolId, sink'.toList = sink.toList ++ cycles.map .inheritanceCycle := by
  intro b visible undefined hchain htext later sink hlater r
  have hinterned : b.NamesInterned := Builder.namesInterned_declareAll names hsteps
  have howned : b.table.MembersOwned := SymbolTable.membersOwned_declareAll names steps
  have hvisible : r.visibleTexts chain request.options = visible :=
    visibleTexts_of_extendedBy hinterned howned hlater hchain settings request.options
  have herror : r.errorOf? chain request .empty = some undefined := by
    rw [errorOf?_of_empty rfl, hvisible]
  have hresolve : ∀ sink', r.lookup chain request false sink = (.ok .empty, sink') →
      r.resolve chain request false sink = (.error (.unresolved undefined), sink') := by
    intro sink' hlookup
    rw [resolve_of_lookup_ok hlookup, herror]
    rfl
  cases hname : later.find? request.name with
  | none =>
    have hlookup : r.lookup chain request false sink = (.ok .empty, sink) :=
      lookup_of_find?_eq_none hvalid hname chain sink
    exact ⟨sink, hlookup, hresolve sink hlookup, fun _ => rfl, [], by simp⟩
  | some name =>
    have hnone : ∀ x ∈ chain, x.candidates b.table (request.query name) ∅ = [] := by
      intro x hx
      refine List.eq_nil_iff_forall_not_mem.2 fun s hs => ?_
      obtain ⟨hs, hsame⟩ := (hchain x hx).of_mem_candidates howned hs
      exact hinterned.name_ne hlater htext hname hs hsame
    obtain ⟨sink', cycles, hlookup, hsink⟩ := @lookup_of_no_candidates r chain request name hvalid hname hnone sink
    exact ⟨sink', hlookup, hresolve sink' hlookup, by simp, cycles, hsink⟩

/-- Types 1 and 2 are bases of each other, and type 2 has a type parameter 3. Symbols 4 and 5
are a local variable and a label. -/
def cycleWithTypeParameter : List Declaration :=
  [.typeIn ⟨0⟩ "Base" .classType 0, .typeIn ⟨0⟩ "Derived" .classType 1, .typeParameters ⟨2⟩ ["T"],
    .symbol { name := ⟨0⟩, kind := .localVariable, container := some ⟨2⟩ },
    .symbol { name := ⟨1⟩, kind := .label, container := some ⟨2⟩ },
    .base ⟨1⟩ ⟨2⟩, .base ⟨2⟩ ⟨1⟩]

theorem unknown_names_undefined_onCycle :
    let b := (Builder.start .empty).declareAll cycleWithTypeParameter
    let chain : ScopeChain := [.locals b.table .block [⟨4⟩] [⟨5⟩], .typeParameters b.table .type ⟨2⟩ [⟨3⟩],
      .ofType ⟨2⟩, .imports b.table [⟨0⟩] [], .ofNamespace ⟨0⟩]
    let request : LookupRequest := { name := "missing" }
    let later := (b.names.intern "missing").2
    (Builder.start .empty).eachStep Builder.knowsName cycleWithTypeParameter = true ∧
      request.options.isValid = true ∧ (∀ x ∈ chain, x.BuiltFrom b.table) ∧
      (∀ s, b.table.contains s = true → b.names.text (b.table.data s).name ≠ request.name) ∧
      b.names.ExtendedBy later ∧ b.names.find? request.name = none ∧
      ∃ error sink', resolve ⟨b.names, b.table, {}⟩ chain request false ∅ = (.error error, ∅) ∧
        resolve ⟨later, b.table, {}⟩ chain request false ∅ = (.error error, sink') ∧
        sink'.toList = [.inheritanceCycle ⟨2⟩] := by
  intro b chain request later
  have hsteps : (Builder.start .empty).eachStep Builder.knowsName cycleWithTypeParameter = true := by
    decide +kernel
  have hchain : ∀ x ∈ chain, x.BuiltFrom b.table := by
    simp only [chain, List.forall_mem_cons]
    refine ⟨.locals _ _ _ ?_ ?_, .typeParameters _ _ _ ?_ ?_, .ofType _ ?_, .imports _ _ ?_ ?_,
      .ofNamespace _ ?_, List.forall_mem_nil _⟩ <;> decide +kernel
  have htext : ∀ s, b.table.contains s = true → b.names.text (b.table.data s).name ≠ request.name := by
    have hids : ∀ s ∈ b.table.ids, b.names.text (b.table.data s).name ≠ request.name := by decide +kernel
    exact fun s hs => hids s (SymbolTable.mem_ids.2 (of_decide_eq_true hs))
  have hlater : b.names.ExtendedBy later := b.names.extendedBy_intern "missing"
  have hnever : b.names.find? request.name = none := by decide +kernel
  have hfacts := unknown_names_undefined .empty cycleWithTypeParameter hsteps {} chain request rfl hchain htext
  obtain ⟨sink, -, hresolve, hsame, -⟩ := hfacts b.names ∅ (.refl b.names)
  obtain ⟨sink', hlookup, hresolve', -, -⟩ := hfacts later ∅ hlater
  obtain rfl := hsame hnever
  refine ⟨hsteps, rfl, hchain, htext, hlater, hnever, _, sink', hresolve, hresolve', ?_⟩
  calc sink'.toList = (lookup ⟨later, b.table, {}⟩ chain request false ∅).2.toList := by rw [hlookup]
    _ = [.inheritanceCycle ⟨2⟩] := by decide +kernel

end Resolver

end NameResolution
