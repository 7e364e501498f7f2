import Mathlib.Data.List.ProdSigma
import NameResolution.Proofs.Scenario.Declaring
import NameResolution.Scenario.Fixture

/-! Base types of a scenario. They are added after all symbols are declared, to the symbols that the
paths of the declarations denote by then. So of several symbols that are declared at one path the last
one gets the base types of all these declarations, and the others get none. -/

namespace NameResolution

namespace Declarations

variable {known : List String} {added : List (SymbolId × SymbolId)} {d d' : Declarations} {decl : SymbolDecl}
  {paths : List String} {path : String} {s ty : SymbolId} {symbols : List SymbolDecl}

/-- The symbols at these paths, where something is declared at them. -/
def symbolsAt (d : Declarations) (paths : List String) : List SymbolId :=
  paths.filterMap fun path => (d.symbolAt path).toOption

/-- The base types that the declarations list, each one after the symbol at the path of its declaration. -/
def listedBases (d : Declarations) (symbols : List SymbolDecl) : List (SymbolId × SymbolId) :=
  symbols.flatMap fun decl => (d.symbolsAt [decl.path]).product (d.symbolsAt decl.bases)

theorem mem_symbolsAt_iff : s ∈ d.symbolsAt paths ↔ ∃ path ∈ paths, d.symbolAt path = .ok s := by
  simp only [symbolsAt, List.mem_filterMap]
  refine exists_congr fun path => and_congr_right fun _ => ?_
  cases d.symbolAt path <;> simp [Except.toOption]

theorem symbolsAt_singleton (h : d.symbolAt path = .ok s) : d.symbolsAt [path] = [s] := by
  simp [symbolsAt, h, Except.toOption]

theorem mapM_symbolAt_eq_ok (h : ∀ path ∈ paths, ∃ s, d.symbolAt path = .ok s) :
    paths.mapM d.symbolAt = .ok (d.symbolsAt paths) := by
  induction paths with
  | nil => rfl
  | cons path paths ih =>
    obtain ⟨⟨s, hs⟩, hpaths⟩ := List.forall_mem_cons.1 h
    have hcons : d.symbolsAt (path :: paths) = s :: d.symbolsAt paths := by
      simp [symbolsAt, hs, Except.toOption]
    rw [List.mapM_cons, hs, ih hpaths, hcons]
    rfl

/-! ### Adding base types -/

/-- Each entry adds its second symbol to the base types of its first. -/
def withBases (d : Declarations) (entries : List (SymbolId × SymbolId)) : Declarations :=
  { d with builder := d.builder.declareAll (entries.map fun entry => .base entry.1 entry.2) }

theorem withBases_append (d : Declarations) (entries later : List (SymbolId × SymbolId)) :
    d.withBases (entries ++ later) = (d.withBases entries).withBases later := by
  simp [withBases, Builder.declareAll_append]

/-- Adding base types does not change what paths denote. -/
theorem symbolAt_withBases (d : Declarations) (entries : List (SymbolId × SymbolId)) :
    (d.withBases entries).symbolAt = d.symbolAt := rfl

theorem foldlM_addBase_eq (d : Declarations) (ty : SymbolId) (paths : List String) :
    paths.foldlM (fun (later : Declarations) path => do
      let base ← later.symbolAt path
      return { later with builder := later.builder.addBase ty base }) d =
      (paths.mapM d.symbolAt).map fun bases => d.withBases (bases.map fun base => (ty, base)) := by
  induction paths generalizing d with
  | nil => rfl
  | cons path paths ih =>
    rw [List.foldlM_cons, List.mapM_cons]
    cases hbase : d.symbolAt path with
    | error e => rfl
    | ok base =>
      refine (ih (d.withBases [(ty, base)])).trans ?_
      rw [symbolAt_withBases]
      cases hbases : paths.mapM d.symbolAt <;> rfl

theorem listedBases_singleton (h : d.symbolAt decl.path = .ok ty) :
    d.listedBases [decl] = (d.symbolsAt decl.bases).map fun base => (ty, base) := by
  simp [listedBases, symbolsAt_singleton h, List.product]

theorem listedBases_cons (d : Declarations) (decl : SymbolDecl) (symbols : List SymbolDecl) :
    d.listedBases (decl :: symbols) = d.listedBases [decl] ++ d.listedBases symbols := by
  simp [listedBases]

/-- The base types listed for one symbol. -/
theorem filterMap_listedBases (d : Declarations) (symbols : List SymbolDecl) (s : SymbolId) :
    ((d.listedBases symbols).filterMap fun entry => if entry.1 = s then some entry.2 else none) =
      (symbols.filter fun decl => d.symbolAt decl.path = .ok s).flatMap fun decl => d.symbolsAt decl.bases := by
  induction symbols with
  | nil => rfl
  | cons decl symbols ih =>
    rw [listedBases_cons, List.filterMap_append, ih, List.filter_cons]
    cases hty : d.symbolAt decl.path with
    | error e => simp [listedBases, symbolsAt, hty, Except.toOption, List.product]
    | ok ty =>
      rw [listedBases_singleton hty, List.filterMap_map]
      by_cases hs : ty = s <;> simp [hs]

theorem declareBases_eq_ok_iff : d.declareBases decl = .ok d' ↔ (∃ ty, d.symbolAt decl.path = .ok ty) ∧
    (∀ path ∈ decl.bases, ∃ base, d.symbolAt path = .ok base) ∧ d' = d.withBases (d.listedBases [decl]) := by
  simp only [declareBases, foldlM_addBase_eq]
  constructor
  · intro h
    obtain ⟨ty, hty, h⟩ := bind_eq_ok_iff.1 h
    cases hbases : decl.bases.mapM d.symbolAt with
    | error e => rw [hbases] at h; cases h
    | ok bases =>
      have hknown := exists_mapM_eq_ok_iff.1 ⟨bases, hbases⟩
      rw [mapM_symbolAt_eq_ok hknown] at h
      cases h
      exact ⟨⟨ty, hty⟩, hknown, by rw [listedBases_singleton hty]⟩
  · rintro ⟨⟨ty, hty⟩, hknown, rfl⟩
    rw [listedBases_singleton hty, hty, mapM_symbolAt_eq_ok hknown]
    rfl

/-- Base types are added if all paths are known, and nothing else changes then. -/
theorem foldlM_declareBases_eq_ok_iff : symbols.foldlM declareBases d = .ok d' ↔
    (∀ decl ∈ symbols, (∃ ty, d.symbolAt decl.path = .ok ty) ∧
      ∀ path ∈ decl.bases, ∃ base, d.symbolAt path = .ok base) ∧ d' = d.withBases (d.listedBases symbols) := by
  induction symbols generalizing d with
  | nil => simp [listedBases, withBases, Builder.declareAll, pure, Except.pure, eq_comm]
  | cons decl symbols ih =>
    rw [List.foldlM_cons, bind_eq_ok_iff, List.forall_mem_cons, listedBases_cons, withBases_append]
    constructor
    · rintro ⟨next, hnext, h⟩
      obtain ⟨hty, hbases, rfl⟩ := declareBases_eq_ok_iff.1 hnext
      obtain ⟨hrest, rfl⟩ := ih.1 h
      exact ⟨⟨⟨hty, hbases⟩, hrest⟩, rfl⟩
    · rintro ⟨⟨⟨hty, hbases⟩, hrest⟩, rfl⟩
      exact ⟨_, declareBases_eq_ok_iff.2 ⟨hty, hbases, rfl⟩, ih.2 ⟨hrest, rfl⟩⟩

theorem LaidOut.withBases (h : d.LaidOut known added) {entries : List (SymbolId × SymbolId)}
    (hentries : ∀ entry ∈ entries, entry.1.index < known.length ∧ entry.2.index < known.length) :
    (d.withBases entries).LaidOut known (added ++ entries) := by
  induction entries generalizing added d with
  | nil => rwa [List.append_nil]
  | cons entry entries ih =>
    obtain ⟨⟨hty, hbase⟩, hrest⟩ := List.forall_mem_cons.1 hentries
    have hfirst : (d.withBases [entry]).LaidOut known (added ++ [entry]) :=
      ⟨h.outline.base hty hbase, h.paths_eq, h.typeParameters⟩
    rw [List.append_cons]
    exact ih hfirst hrest

/-- All symbols are declared, and then all base types that the scenario lists are added. -/
theorem ofSymbols_eq_ok_iff : ofSymbols symbols = .ok d ↔ ∃ declared, symbols.foldlM declare initial = .ok declared ∧
    (∀ decl ∈ symbols, ∀ path ∈ decl.bases, path ∈ knownPaths symbols) ∧
    d = declared.withBases (declared.listedBases symbols) := by
  rw [ofSymbols, bind_eq_ok_iff]
  refine exists_congr fun declared => and_congr_right fun hdeclared => ?_
  have hlaid := laidOut_of_foldlM_declare hdeclared
  rw [foldlM_declareBases_eq_ok_iff]
  -- The path of a declaration is always found again by then, only those of its base types may be missing.
  simp only [hlaid.exists_symbolAt_iff]
  refine and_congr_left fun _ => forall₂_congr fun decl hdecl => and_iff_right ?_
  exact List.mem_cons_of_mem _ (List.mem_flatMap.2 ⟨decl, hdecl, List.mem_cons_self⟩)

theorem laidOut_of_ofSymbols (h : ofSymbols symbols = .ok d) :
    d.LaidOut (knownPaths symbols) (d.listedBases symbols) := by
  obtain ⟨declared, hdeclared, -, rfl⟩ := ofSymbols_eq_ok_iff.1 h
  have hlaid := laidOut_of_foldlM_declare hdeclared
  refine hlaid.withBases fun entry hentry => ?_
  obtain ⟨decl, -, hmem⟩ := List.mem_flatMap.1 hentry
  obtain ⟨hty, hbase⟩ := List.pair_mem_product.1 hmem
  obtain ⟨path, -, hpath⟩ := mem_symbolsAt_iff.1 hty
  obtain ⟨basePath, -, hbasePath⟩ := mem_symbolsAt_iff.1 hbase
  exact ⟨hlaid.index_lt hpath, hlaid.index_lt hbasePath⟩

end Declarations

/-! ### The base types of each declaration -/

section

variable {scenario : Scenario} {f : Fixture} {before after : List SymbolDecl} {decl : SymbolDecl}

namespace Fixture

theorem ofScenario_eq_ok_iff : ofScenario scenario = .ok f ↔
    Declarations.ofSymbols scenario.symbols = .ok f.declarations ∧
      f.declarations.chain scenario.scopes = .ok f.chain := by
  simp only [ofScenario, bind_eq_ok_iff]
  constructor
  · rintro ⟨declarations, hdeclarations, chain, hchain, hf⟩
    cases hf
    exact ⟨hdeclarations, hchain⟩
  · rintro ⟨hdeclarations, hchain⟩
    exact ⟨_, hdeclarations, _, hchain, rfl⟩

theorem laidOut_of_ofScenario (h : ofScenario scenario = .ok f) :
    f.declarations.LaidOut (knownPaths scenario.symbols) (f.declarations.listedBases scenario.symbols) :=
  Declarations.laidOut_of_ofSymbols (ofScenario_eq_ok_iff.1 h).1

/-- A symbol has the base types that are listed at the path that denotes it. -/
theorem bases_of_ofScenario (h : ofScenario scenario = .ok f) (s : SymbolId) :
    f.table.bases s = ((scenario.symbols.filter fun decl => f.symbolAt decl.path = .ok s).flatMap fun decl =>
      f.declarations.symbolsAt decl.bases).eraseDups := by
  rw [table, (laidOut_of_ofScenario h).outline.bases_eq, Declarations.filterMap_listedBases]
  rfl

theorem bases_of_only_path (h : ofScenario scenario = .ok f) {s : SymbolId} {path : String}
    (honly : ∀ other, f.symbolAt other = .ok s → other = path) :
    f.table.bases s = if f.symbolAt path = .ok s then
      ((scenario.symbols.filter fun decl => decl.path = path).flatMap fun decl =>
        f.declarations.symbolsAt decl.bases).eraseDups else [] := by
  rw [bases_of_ofScenario h]
  split
  next hdenotes =>
    have hsame : ∀ decl : SymbolDecl, f.symbolAt decl.path = .ok s ↔ decl.path = path :=
      fun decl => ⟨honly decl.path, fun heq => heq ▸ hdenotes⟩
    simp only [hsame]
  next hlost =>
    have hnone : ∀ decl : SymbolDecl, f.symbolAt decl.path ≠ .ok s := by
      intro decl hdecl
      have heq := honly decl.path hdecl
      rw [heq] at hdecl
      exact hlost hdecl
    simp [hnone]

/-- Each declaration of an accepted scenario declares a symbol at its own path. -/
theorem exists_declare_of_ofScenario (h : ofScenario scenario = .ok f)
    (hsymbols : scenario.symbols = before ++ decl :: after) :
    ∃ d d', before.foldlM Declarations.declare .initial = .ok d ∧ d.declare decl = .ok d' ∧
      d'.symbolAt decl.path = .ok d.next ∧
      ∀ path, f.symbolAt path = .ok d.next → path = decl.path := by
  obtain ⟨declared, hdeclared, -⟩ := Declarations.ofSymbols_eq_ok_iff.1 (ofScenario_eq_ok_iff.1 h).1
  rw [hsymbols, List.foldlM_append, bind_eq_ok_iff] at hdeclared
  obtain ⟨d, hbefore, hrest⟩ := hdeclared
  rw [List.foldlM_cons, bind_eq_ok_iff] at hrest
  obtain ⟨d', hd, -⟩ := hrest
  have hlaid := Declarations.laidOut_of_foldlM_declare hbefore
  refine ⟨d, d', hbefore, hd, hlaid.symbolAt_of_declare hd, fun path hpath => ?_⟩
  have hknown := ((laidOut_of_ofScenario h).symbolAt_eq_ok_iff.1 hpath).getElem?_eq
  have hown : (knownPaths scenario.symbols)[d.next.index]? = some decl.path := by
    rw [hlaid.next_eq, hsymbols]
    simp [knownPaths, SymbolDecl.paths]
  rw [hown] at hknown
  exact (Option.some.inj hknown).symm

end Fixture

/-- The symbol of a declaration has the base types of all declarations at its path, if the path denotes it
in the end, and none otherwise. So it has just the listed ones where no other declaration has the path. -/
theorem listed_bases_go_to_denoted_symbol (h : Fixture.ofScenario scenario = .ok f)
    (hsymbols : scenario.symbols = before ++ decl :: after) :
    ∃ d d', before.foldlM Declarations.declare .initial = .ok d ∧ d.declare decl = .ok d' ∧
      d'.symbolAt decl.path = .ok d.next ∧
      decl.bases.mapM f.symbolAt = .ok (f.declarations.symbolsAt decl.bases) ∧
      f.table.bases d.next = (if f.symbolAt decl.path = .ok d.next then
        ((scenario.symbols.filter fun other => other.path = decl.path).flatMap fun other =>
          f.declarations.symbolsAt other.bases).eraseDups else []) ∧
      (f.symbolAt decl.path = .ok d.next → (∀ other ∈ before ++ after, other.path ≠ decl.path) →
        f.table.bases d.next = (f.declarations.symbolsAt decl.bases).eraseDups) := by
  obtain ⟨d, d', hbefore, hd, hdeclared, hpath⟩ := Fixture.exists_declare_of_ofScenario h hsymbols
  have hbases : decl.bases.mapM f.symbolAt = .ok (f.declarations.symbolsAt decl.bases) := by
    obtain ⟨-, -, hknown, -⟩ := Declarations.ofSymbols_eq_ok_iff.1 (Fixture.ofScenario_eq_ok_iff.1 h).1
    refine Declarations.mapM_symbolAt_eq_ok fun path hmem => ?_
    refine (Fixture.laidOut_of_ofScenario h).exists_symbolAt_iff.2 (hknown decl ?_ path hmem)
    rw [hsymbols]
    exact List.mem_append_right _ List.mem_cons_self
  have hall := Fixture.bases_of_only_path h hpath
  refine ⟨d, d', hbefore, hd, hdeclared, hbases, hall, fun hlast hothers => ?_⟩
  have honly : scenario.symbols.filter (fun other => other.path = decl.path) = [decl] := by
    have hnone : ∀ others ⊆ before ++ after, others.filter (fun other => other.path = decl.path) = [] :=
      fun others hsub => List.filter_eq_nil_iff.2 fun other hother => by simpa using hothers other (hsub hother)
    rw [hsymbols, List.filter_append, List.filter_cons, hnone before (List.subset_append_left _ _),
      hnone after (List.subset_append_right _ _)]
    simp
  rw [hall, if_pos hlast, honly, List.flatMap_singleton]

def shapeInterface : SymbolDecl := { path := "Shape", kind := "interface" }
def textInterface : SymbolDecl := { path := "Text", kind := "interface" }
def plainList : SymbolDecl := { path := "List", kind := "class", bases := ["Shape"] }
def genericList : SymbolDecl := { path := "List", kind := "class", typeParameters := ["T"], bases := ["Text"] }

/-- Two types at one path, each with a base type of its own. -/
def sharedPath : Scenario where
  symbols := [shapeInterface, textInterface, plainList, genericList]
  scopes := [{ kind := "namespace", owner := some "" }]

theorem exists_fixture_sharedPath : ∃ f, Fixture.ofScenario sharedPath = .ok f ∧
    f.symbolAt "List" = .ok ⟨4⟩ ∧ f.declarations.symbolsAt ["Shape"] = [⟨1⟩] ∧
    f.declarations.symbolsAt ["Text"] = [⟨2⟩] ∧ f.table.bases ⟨3⟩ = [] := by
  have h : (Fixture.ofScenario sharedPath).map (fun f => (f.symbolAt "List", f.declarations.symbolsAt ["Shape"],
      f.declarations.symbolsAt ["Text"], f.table.bases ⟨3⟩)) = .ok (.ok ⟨4⟩, [⟨1⟩], [⟨2⟩], []) := by
    decide +kernel
  obtain ⟨f, hf, hvalues⟩ := map_eq_ok_iff.1 h
  simp only [Prod.mk.injEq] at hvalues
  exact ⟨f, hf, hvalues⟩

/-- The second of the two types has both base types. -/
theorem listed_bases_go_to_denoted_symbol_sharedPath : ∃ f d, Fixture.ofScenario sharedPath = .ok f ∧
    [shapeInterface, textInterface, plainList].foldlM Declarations.declare .initial = .ok d ∧
    f.symbolAt genericList.path = .ok d.next ∧ f.table.bases d.next = [⟨1⟩, ⟨2⟩] := by
  obtain ⟨f, hf, hpath, hshape, htext, -⟩ := exists_fixture_sharedPath
  obtain ⟨d, d', hbefore, -, -, -, hbases, -⟩ :=
    @listed_bases_go_to_denoted_symbol sharedPath f [shapeInterface, textInterface, plainList] [] genericList hf rfl
  have hnext : ([shapeInterface, textInterface, plainList].foldlM Declarations.declare .initial).map
      Declarations.next = .ok ⟨4⟩ := by decide +kernel
  rw [hbefore] at hnext
  have hlast : f.symbolAt genericList.path = .ok d.next := by
    rw [Except.ok.inj hnext]
    exact hpath
  have hlisted : (sharedPath.symbols.filter fun other => other.path = genericList.path) =
      [plainList, genericList] := rfl
  refine ⟨f, d, hf, hbefore, hlast, ?_⟩
  rw [hbases, if_pos hlast, hlisted, List.flatMap_cons, List.flatMap_singleton]
  exact congrArg List.eraseDups (congrArg₂ (· ++ ·) hshape htext)

/-- The first of the two types does not have the base type that it lists. -/
theorem not_every_declaration_has_its_listed_bases : ¬∀ (scenario : Scenario) (f : Fixture),
    Fixture.ofScenario scenario = .ok f → ∀ before decl after, scenario.symbols = before ++ decl :: after →
      ∀ d, before.foldlM Declarations.declare .initial = .ok d →
        f.table.bases d.next = (f.declarations.symbolsAt decl.bases).eraseDups := by
  intro h
  obtain ⟨f, hf, -, hshape, -, hnone⟩ := exists_fixture_sharedPath
  have hnext : ([shapeInterface, textInterface].foldlM Declarations.declare .initial).map
      Declarations.next = .ok ⟨3⟩ := by decide +kernel
  obtain ⟨d, hd, hnext⟩ := map_eq_ok_iff.1 hnext
  have hown := h sharedPath f hf [shapeInterface, textInterface] plainList [genericList] rfl d hd
  have hlisted : f.declarations.symbolsAt plainList.bases = [⟨1⟩] := hshape
  rw [hnext, hnone, hlisted] at hown
  exact absurd hown (by decide)

end

end NameResolution
