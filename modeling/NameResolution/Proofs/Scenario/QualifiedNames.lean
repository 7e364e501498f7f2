import NameResolution.Proofs.Scenario.Bases

/-! Paths as qualified names. Where no declared path is empty or starts with a dot, a path spells out
the names of the symbol that it denotes and of the containers around it, whatever is declared again. So
a symbol has one path only. -/

namespace NameResolution

/-- A path that begins with a name. -/
def IsPlain (path : String) : Prop := path ≠ "" ∧ path.toList.head? ≠ some '.'

theorem IsPlain.joinPath {path : String} (h : IsPlain path) (name : String) : IsPlain (joinPath path name) := by
  obtain ⟨c, rest, hpath⟩ := List.exists_cons_of_ne_nil (mt String.toList_eq_nil_iff.1 h.1)
  have hjoined : (NameResolution.joinPath path name).toList = c :: (rest ++ '.' :: name.toList) := by
    simp [NameResolution.joinPath, hpath]
  refine ⟨fun heq => ?_, ?_⟩
  · simp [heq] at hjoined
  · rw [hjoined]
    simpa [hpath] using h.2

theorem not_isPlain_joinPath (name : String) : ¬IsPlain (joinPath "" name) := by
  simp [IsPlain, joinPath]

/-- The symbols lead from a symbol out to the last one below the global namespace, each inside the next,
and their names make up the path. -/
structure SpelledOut (b : Builder) (s : SymbolId) (path : String) (below : List SymbolId) (texts : List String) :
    Prop where
  containers_eq : s :: b.table.containers s = below ++ [SymbolTable.globalNamespace]
  linked : (below ++ [SymbolTable.globalNamespace]).IsChain fun x y => (b.table.data x).container = some y
  texts_eq : below.map (fun x => b.names.text? (b.table.data x).name) = texts.map some
  path_eq : ".".intercalate texts.reverse = path

namespace SpelledOut

variable {known : List String} {added : List (SymbolId × SymbolId)} {b : Builder} {s container : SymbolId}
  {path containerPath name : String}

theorem globalNamespace (h : (b.table.data SymbolTable.globalNamespace).container = none) :
    SpelledOut b SymbolTable.globalNamespace "" [] [] where
  containers_eq := by
    rw [SymbolTable.containers_eq_nil h]
    rfl
  linked := .singleton _
  texts_eq := rfl
  path_eq := rfl

theorem cons {below : List SymbolId} {texts : List String} (h : SpelledOut b container containerPath below texts)
    (hlink : Outline.Link known b s path container containerPath name)
    (hpath : ".".intercalate (texts.reverse ++ [name]) = path) : SpelledOut b s path (s :: below) (name :: texts) where
  containers_eq := by rw [SymbolTable.containers_eq_cons hlink.container_eq, h.containers_eq, List.cons_append]
  linked := by
    have houter : (below ++ [SymbolTable.globalNamespace]).head? = some container := by
      rw [← h.containers_eq, List.head?_cons]
    rw [List.cons_append, List.isChain_cons, houter]
    exact ⟨fun next hnext => (Option.mem_some_iff.1 hnext) ▸ hlink.container_eq, h.linked⟩
  texts_eq := by rw [List.map_cons, List.map_cons, hlink.text?_eq, h.texts_eq]
  path_eq := by rw [List.reverse_cons, hpath]

end SpelledOut

theorem Outline.exists_spelledOut {known : List String} {added : List (SymbolId × SymbolId)} {b : Builder}
    (h : Outline known added b)
    (hplain : ∀ (s : SymbolId) path, known[s.index]? = some path → s ≠ SymbolTable.globalNamespace → IsPlain path)
    {s : SymbolId} {path : String} (hs : known[s.index]? = some path) :
    ∃ below texts, SpelledOut b s path below texts := by
  obtain ⟨hglobalPath, hglobal⟩ := h.container_global
  -- Containers are declared earlier. The path of the container is the one it was declared with, whatever
  -- that path denotes in the end, so the induction is on symbols and not on what paths denote.
  induction hindex : s.index using Nat.strong_induction_on generalizing s path with
  | _ n ih =>
    by_cases hne : s = SymbolTable.globalNamespace
    · subst hne
      cases hglobalPath.symm.trans hs
      exact ⟨[], [], .globalNamespace hglobal⟩
    · obtain ⟨container, containerPath, name, hlink⟩ := h.exists_link hs hne
      by_cases houter : container = SymbolTable.globalNamespace
      · subst houter
        cases hglobalPath.symm.trans hlink.known_eq
        refine ⟨[s], [name], (SpelledOut.globalNamespace hglobal).cons hlink ?_⟩
        rcases hlink.path_inside with rfl | ⟨-, rfl⟩
        · exact absurd (hplain s _ hs hne) (not_isPlain_joinPath name)
        · exact String.intercalate_singleton
      · obtain ⟨below, texts, hcontainer⟩ := ih _ (hindex ▸ hlink.earlier) hlink.known_eq rfl
        have hnonempty := (hplain container _ hlink.known_eq houter).1
        refine ⟨s :: below, name :: texts, hcontainer.cons hlink ?_⟩
        have htexts : texts.reverse ≠ [] := by
          intro hnil
          rw [← hcontainer.path_eq, hnil] at hnonempty
          exact hnonempty String.intercalate_nil
        rw [String.intercalate_append_of_ne_nil htexts (List.cons_ne_nil _ _), hcontainer.path_eq,
          String.intercalate_singleton]
        rcases hlink.path_inside with rfl | ⟨hempty, -⟩
        · rfl
        · exact absurd hempty hnonempty

/-- A plain path of an accepted scenario spells out the names around the symbol that it denotes, down from
the global namespace, which has the empty path. So no symbol has two paths. -/
theorem paths_spell_out_symbols {scenario : Scenario} {f : Fixture} (h : Fixture.ofScenario scenario = .ok f)
    (hplain : ∀ decl ∈ scenario.symbols, decl.path ≠ "" ∧ decl.path.toList.head? ≠ some '.') :
    f.symbolAt "" = .ok SymbolTable.globalNamespace ∧
      (f.table.data SymbolTable.globalNamespace).container = none ∧
      (∀ path s, f.symbolAt path = .ok s → ∃ below texts, SpelledOut f.declarations.builder s path below texts) ∧
      ∀ path other s, f.symbolAt path = .ok s → f.symbolAt other = .ok s → path = other := by
  have hlaid := Fixture.laidOut_of_ofScenario h
  have hrest : ∀ path ∈ scenario.symbols.flatMap SymbolDecl.paths, IsPlain path := by
    intro path hpath
    obtain ⟨decl, hdecl, hpath⟩ := List.mem_flatMap.1 hpath
    rcases List.mem_cons.1 hpath with rfl | hpath
    · exact hplain decl hdecl
    · obtain ⟨name, -, rfl⟩ := List.mem_map.1 hpath
      exact (show IsPlain decl.path from hplain decl hdecl).joinPath name
  have hknown : ∀ (s : SymbolId) path, (knownPaths scenario.symbols)[s.index]? = some path →
      s ≠ SymbolTable.globalNamespace → IsPlain path := by
    rintro ⟨_ | i⟩ path hpath hne
    · exact absurd rfl hne
    · exact hrest path (List.mem_of_getElem? hpath)
  refine ⟨?_, hlaid.outline.container_global.2, fun path s hs => ?_, fun path other s hs hother => ?_⟩
  · refine hlaid.symbolAt_eq_ok_iff.2 ⟨rfl, fun i hi hat => ?_⟩
    exact (hknown ⟨i⟩ "" hat fun heq => hi.ne' (congrArg SymbolId.index heq)).1 rfl
  · exact hlaid.outline.exists_spelledOut hknown (hlaid.symbolAt_eq_ok_iff.1 hs).getElem?_eq
  · have hfirst := (hlaid.symbolAt_eq_ok_iff.1 hs).getElem?_eq
    have hsecond := (hlaid.symbolAt_eq_ok_iff.1 hother).getElem?_eq
    exact Option.some.inj (hfirst.symm.trans hsecond)

/-- A property at the path of a type parameter, inside the first of two types at one path. -/
def collidingPaths : Scenario where
  symbols := [
    { path := "App", kind := "namespace" },
    { path := "App.Box", kind := "class", typeParameters := ["Item"] },
    { path := "App.Box.Item", kind := "property" },
    { path := "App.Box", kind := "class" }]
  scopes := [{ kind := "namespace", owner := some "App" }]

/-- The property is spelled out by its path though the path of its type denotes the second type. -/
theorem paths_spell_out_symbols_collidingPaths : ∃ f below texts, Fixture.ofScenario collidingPaths = .ok f ∧
    (∀ decl ∈ collidingPaths.symbols, decl.path ≠ "" ∧ decl.path.toList.head? ≠ some '.') ∧
    f.symbolAt "App.Box" = .ok ⟨5⟩ ∧ f.symbolAt "App.Box.Item" = .ok ⟨4⟩ ∧ f.table.containers ⟨4⟩ = [⟨2⟩, ⟨1⟩, ⟨0⟩] ∧
    SpelledOut f.declarations.builder ⟨4⟩ "App.Box.Item" below texts := by
  have hplain : ∀ decl ∈ collidingPaths.symbols, decl.path ≠ "" ∧ decl.path.toList.head? ≠ some '.' := by
    decide +kernel
  have hvalues : (Fixture.ofScenario collidingPaths).map (fun f =>
      (f.symbolAt "App.Box", f.symbolAt "App.Box.Item", f.table.containers ⟨4⟩)) =
        .ok (.ok ⟨5⟩, .ok ⟨4⟩, [⟨2⟩, ⟨1⟩, ⟨0⟩]) := by decide +kernel
  obtain ⟨f, hf, hvalues⟩ := map_eq_ok_iff.1 hvalues
  obtain ⟨hbox, hitem, hcontainers⟩ := by simpa only [Prod.mk.injEq] using hvalues
  obtain ⟨-, -, hspelled, -⟩ := paths_spell_out_symbols hf hplain
  obtain ⟨below, texts, hitems⟩ := hspelled _ _ hitem
  exact ⟨f, below, texts, hf, hplain, hbox, hitem, hcontainers, hitems⟩

end NameResolution
