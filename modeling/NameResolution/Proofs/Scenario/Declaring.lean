import NameResolution.Proofs.Scenario.Outline
import NameResolution.Scenario.Declare

/-! What declaring does. A declaration makes its own path known and then the paths of its type
parameters. So the paths of all symbols are known from the scenario alone, and a path denotes the last
symbol that was declared at it. -/

namespace NameResolution

/-! ### Steps that may fail -/

section

variable {ε α β : Type} {f : α → Except ε β} {xs : List α} {ys : List β}

theorem bind_eq_ok_iff {x : Except ε α} {b : β} : x >>= f = .ok b ↔ ∃ a, x = .ok a ∧ f a = .ok b := by
  cases x <;> simp [bind, Except.bind]

theorem map_eq_ok_iff {x : Except ε α} {g : α → β} {b : β} : x.map g = .ok b ↔ ∃ a, x = .ok a ∧ g a = b := by
  cases x <;> simp [Except.map]

theorem exists_map_eq_ok_iff {x : Except ε α} {g : α → β} : (∃ b, x.map g = .ok b) ↔ ∃ a, x = .ok a := by
  cases x <;> simp [Except.map]

theorem mapM_eq_ok_iff : xs.mapM f = .ok ys ↔ List.Forall₂ (fun x y => f x = .ok y) xs ys := by
  induction xs generalizing ys with
  | nil => cases ys <;> simp [pure, Except.pure]
  | cons x xs ih =>
    simp only [List.mapM_cons, bind_eq_ok_iff, List.forall₂_cons_left_iff, ih]
    constructor
    · rintro ⟨y, hy, ys', hys, hcons⟩
      cases hcons
      exact ⟨y, ys', hy, hys, rfl⟩
    · rintro ⟨y, ys', hy, hys, rfl⟩
      exact ⟨y, hy, ys', hys, rfl⟩

theorem exists_of_mem_mapM (h : xs.mapM f = .ok ys) {y : β} (hy : y ∈ ys) : ∃ x ∈ xs, f x = .ok y := by
  rw [mapM_eq_ok_iff] at h
  induction h with
  | nil => cases hy
  | cons hhead htail ih =>
    rcases List.mem_cons.1 hy with rfl | hy
    · exact ⟨_, List.mem_cons_self, hhead⟩
    · obtain ⟨x, hx, hxy⟩ := ih hy
      exact ⟨x, List.mem_cons_of_mem _ hx, hxy⟩

theorem exists_mapM_eq_ok_iff : (∃ ys, xs.mapM f = .ok ys) ↔ ∀ x ∈ xs, ∃ y, f x = .ok y := by
  simp only [mapM_eq_ok_iff]
  induction xs with
  | nil => exact iff_of_true ⟨[], .nil⟩ (by simp)
  | cons x xs ih =>
    rw [List.forall_mem_cons, ← ih]
    simp only [List.forall₂_cons_left_iff]
    constructor
    · rintro ⟨_, y, ys, hy, hys, rfl⟩
      exact ⟨⟨y, hy⟩, ys, hys⟩
    · rintro ⟨⟨y, hy⟩, ys, hys⟩
      exact ⟨y :: ys, y, ys, hy, hys, rfl⟩

end

/-! ### Known paths -/

/-- The paths of the symbols that a declaration declares: its own and those of its type parameters. -/
def SymbolDecl.paths (decl : SymbolDecl) : List String :=
  decl.path :: decl.typeParameters.map (joinPath decl.path)

/-- The paths of all symbols after these declarations, in the order of declaration. -/
def knownPaths (symbols : List SymbolDecl) : List String := "" :: symbols.flatMap SymbolDecl.paths

/-- Declaring a symbol inside another one interns its name first. -/
theorem Builder.addInside_eq_declareAll (b : Builder) (container : SymbolId) (text : String) (kind : SymbolKind)
    (arity : Nat) (accessibility : Accessibility) : ∃ data : SymbolData, data.container = some container ∧
      data.kind = kind ∧ (b.declareAll ([text].map .name)).names.text? data.name = some text ∧
      (b.addInside container text kind arity accessibility).2 = b.declareAll (symbolSteps [text] data) :=
  ⟨{ name := (b.name text).1, kind, arity, accessibility, container := some container
     module := (b.table.data container).module }, rfl, rfl, b.names.text?_intern_self text, rfl⟩

/-- Before a symbol is declared, its name is interned and perhaps that of a missing module. -/
theorem Builder.exists_texts_problem? (b : Builder) (text : String) (written : Option WrittenProblem) :
    ∃ texts : List String, ((b.name text).2.problem? written).2 = b.declareAll (texts.map .name) ∧
      (b.declareAll (texts.map .name)).names.text? (b.name text).1 = some text := by
  have hname : (b.name text).2.names.text? (b.name text).1 = some text := b.names.text?_intern_self text
  rcases written with _ | ⟨module | _ | _⟩
  · exact ⟨[text], rfl, hname⟩
  · exact ⟨[text, module], rfl, (Interner.extendedBy_intern _ module).text?_eq_some hname⟩
  · exact ⟨[text], rfl, hname⟩
  · exact ⟨[text], rfl, hname⟩

/-- The symbol of a declaration of which the words have been read. -/
def SymbolDecl.symbolData (decl : SymbolDecl) (name : NameId) (container : SymbolId) (kind : SymbolKind)
    (accessibility : Accessibility) (problem : Option UseSiteProblem) : SymbolData where
  name := name
  kind := kind
  accessibility := accessibility
  problem := problem
  arity := decl.symbolArity
  isStatic := decl.isStatic
  container := some container
  module := decl.module

namespace Declarations

variable {known : List String} {added : List (SymbolId × SymbolId)} {d d' : Declarations} {decl : SymbolDecl}
  {path : String} {s : SymbolId}

/-- The symbol that the next declaration declares. -/
def next (d : Declarations) : SymbolId := ⟨d.builder.table.size⟩

/-- Interns texts, then declares a symbol and makes it known at its path. -/
def withSymbol (d : Declarations) (path : String) (texts : List String) (data : SymbolData) : Declarations :=
  { d with builder := d.builder.declareAll (Builder.symbolSteps texts data), paths := (path, d.next) :: d.paths }

/-- The symbols have been declared at these paths, the last ones first in the list of entries. -/
structure LaidOut (known : List String) (added : List (SymbolId × SymbolId)) (d : Declarations) : Prop where
  outline : Outline known added d.builder
  paths_eq : d.paths = pathEntries known
  typeParameters : ∀ entry ∈ d.typeParameters, ∀ s ∈ entry.2, s.index < known.length

theorem laidOut_initial : initial.LaidOut [""] [] := ⟨.start, rfl, by simp [initial]⟩

theorem symbolAt_eq_ok_iff_lookup : d.symbolAt path = .ok s ↔ d.paths.lookup path = some s := by
  unfold symbolAt
  cases d.paths.lookup path <;> simp

namespace LaidOut

theorem symbolAt_eq_ok_iff (h : d.LaidOut known added) : d.symbolAt path = .ok s ↔ LastAt known path s := by
  rw [symbolAt_eq_ok_iff_lookup, h.paths_eq, lookup_pathEntries_iff]

theorem exists_symbolAt_iff (h : d.LaidOut known added) : (∃ s, d.symbolAt path = .ok s) ↔ path ∈ known := by
  simp only [h.symbolAt_eq_ok_iff, exists_lastAt_iff]

theorem next_eq (h : d.LaidOut known added) : d.next = ⟨known.length⟩ := by
  rw [next, h.outline.size_eq]

theorem index_lt (h : d.LaidOut known added) (hs : d.symbolAt path = .ok s) : s.index < known.length :=
  (List.getElem?_eq_some_iff.1 (h.symbolAt_eq_ok_iff.1 hs).getElem?_eq).1

theorem contains (h : d.LaidOut known added) (hs : d.symbolAt path = .ok s) :
    d.builder.table.contains s = true :=
  h.outline.contains_iff.2 (h.index_lt hs)

end LaidOut

/-! ### Type parameters -/

/-- Type parameters are declared one after the other at paths below their owner. -/
theorem outline_addTypeParameters {b : Builder} {owner : SymbolId} (h : Outline known added b)
    (howner : known[owner.index]? = some path) (ordinal : Nat) (names : List String) :
    Outline (known ++ names.map (joinPath path)) added (b.addTypeParameters owner ordinal names).2 ∧
      ((names.map (joinPath path)).zip (b.addTypeParameters owner ordinal names).1).reverse ++ pathEntries known =
        pathEntries (known ++ names.map (joinPath path)) ∧
      ∀ s ∈ (b.addTypeParameters owner ordinal names).1, s.index < (known ++ names.map (joinPath path)).length := by
  induction names generalizing b known ordinal with
  | nil =>
    rw [List.map_nil, List.append_nil]
    exact ⟨h, rfl, List.forall_mem_nil _⟩
  | cons name names ih =>
    obtain ⟨data, hcontainer, hkind, hname, hadd⟩ :=
      b.addInside_eq_declareAll owner name (.typeParameter ordinal) 0 .publicAccess
    have hfirst : Outline (known ++ [joinPath path name]) added
        (b.addInside owner name (.typeParameter ordinal) 0 .publicAccess).2 := by
      rw [hadd]
      exact h.symbol hcontainer howner (Or.inl rfl) (by simp [hkind]) hname
    have hid : (b.addInside owner name (.typeParameter ordinal) 0 .publicAccess).1 = ⟨known.length⟩ :=
      congrArg SymbolId.mk h.size_eq
    have hkept : (known ++ [joinPath path name])[owner.index]? = some path := by
      rw [List.getElem?_append_left (List.getElem?_eq_some_iff.1 howner).1, howner]
    obtain ⟨houtline, hentries, hlt⟩ := ih hfirst hkept (ordinal + 1)
    rw [Builder.addTypeParameters, List.map_cons, List.append_cons]
    refine ⟨houtline, ?_, List.forall_mem_cons.2 ⟨?_, hlt⟩⟩
    · rw [← hentries, pathEntries_concat, List.zip_cons_cons, List.reverse_cons, List.append_assoc, hid]
      rfl
    · rw [hid, List.length_append, List.length_append]
      exact Nat.lt_of_lt_of_le (Nat.lt_succ_self _) (Nat.le_add_right _ _)

theorem LaidOut.declareTypeParameters (h : d.LaidOut known added) (hs : known[s.index]? = some path)
    (names : List String) :
    (d.declareTypeParameters s path names).LaidOut (known ++ names.map (joinPath path)) added := by
  unfold Declarations.declareTypeParameters
  split
  next hnone =>
    rw [List.isEmpty_iff.1 hnone, List.map_nil, List.append_nil]
    exact h
  next =>
    obtain ⟨houtline, hentries, hlt⟩ := outline_addTypeParameters h.outline hs 0 names
    refine ⟨houtline, by rw [← hentries, ← h.paths_eq], List.forall_mem_cons.2 ⟨hlt, ?_⟩⟩
    intro entry hentry s hs
    rw [List.length_append]
    exact Nat.lt_add_right _ (h.typeParameters entry hentry s hs)

/-! ### Declarations -/

/-- The words for kinds of symbols other than aliases stand for kinds other than aliases. -/
theorem ofWord?_ne_namespaceAlias (word : String) (target : SymbolId) :
    SymbolKind.ofWord? word ≠ some (.namespaceAlias target) := by
  unfold SymbolKind.ofWord?
  split <;> simp

theorem symbolAt_of_symbolKind {target : SymbolId} (h : decl.symbolKind d = .ok (.namespaceAlias target)) :
    ∃ path, decl.target = some path ∧ d.symbolAt path = .ok target := by
  unfold SymbolDecl.symbolKind at h
  split at h
  · split at h
    · cases h
    · next path hpath =>
      cases hfound : d.symbolAt path with
      | error e => rw [hfound] at h; cases h
      | ok s =>
        rw [hfound] at h
        cases h
        exact ⟨path, hpath, hfound⟩
  · split at h
    · next kind hkind =>
      cases h
      exact absurd hkind (ofWord?_ne_namespaceAlias _ _)
    · cases h

/-- A declaration interns its name and perhaps that of a missing module, adds a symbol with this name
inside its container, and goes on with the type parameters of the symbol. -/
theorem exists_symbol_of_declare (h : d.declare decl = .ok d') : ∃ (texts : List String) (data : SymbolData)
    (container : SymbolId), d.symbolAt (splitPath decl.path).1 = .ok container ∧ data.container = some container ∧
      decl.symbolKind d = .ok data.kind ∧
      (d.builder.declareAll (texts.map .name)).names.text? data.name = some (splitPath decl.path).2 ∧
      d' = (d.withSymbol decl.path texts data).declareTypeParameters d.next decl.path decl.typeParameters := by
  simp only [declare, bind_eq_ok_iff] at h
  obtain ⟨container, hcontainer, kind, hkind, accessibility, -, written, -, hd'⟩ := h
  cases hd'
  obtain ⟨texts, htexts, hname⟩ := d.builder.exists_texts_problem? (splitPath decl.path).2 written
  refine ⟨texts, decl.symbolData (d.builder.name (splitPath decl.path).2).1 container kind accessibility
    ((d.builder.name (splitPath decl.path).2).2.problem? written).1, container, hcontainer, rfl, hkind, hname, ?_⟩
  have hnext : d.next = ⟨(d.builder.declareAll (texts.map .name)).table.size⟩ := by
    rw [Builder.table_declareAll_names, next]
  rw [withSymbol, Builder.symbolSteps, Builder.declareAll_append, hnext, ← htexts]
  rfl

theorem LaidOut.withSymbol {texts : List String} {data : SymbolData} {container : SymbolId}
    {containerPath name : String} (h : d.LaidOut known added) (hcontainer : data.container = some container)
    (hknown : d.symbolAt containerPath = .ok container) (hpath : PathInside containerPath name path)
    (htarget : ∀ target, data.kind = .namespaceAlias target → ∃ path, d.symbolAt path = .ok target)
    (hname : (d.builder.declareAll (texts.map .name)).names.text? data.name = some name) :
    (d.withSymbol path texts data).LaidOut (known ++ [path]) added where
  outline := by
    refine h.outline.symbol hcontainer (h.symbolAt_eq_ok_iff.1 hknown).getElem?_eq hpath ?_ hname
    intro target hkind
    obtain ⟨path, hpath⟩ := htarget target hkind
    exact h.index_lt hpath
  paths_eq := by rw [Declarations.withSymbol, pathEntries_concat, h.next_eq, h.paths_eq]
  typeParameters entry hentry s hs := by
    rw [List.length_append]
    exact Nat.lt_add_right _ (h.typeParameters entry hentry s hs)

theorem LaidOut.declare (h : d.LaidOut known added) (hd : d.declare decl = .ok d') :
    d'.LaidOut (known ++ decl.paths) added := by
  obtain ⟨texts, data, container, hcontainer, hdata, hkind, hname, rfl⟩ := exists_symbol_of_declare hd
  have htarget : ∀ target, data.kind = .namespaceAlias target → ∃ path, d.symbolAt path = .ok target := by
    intro target htarget
    rw [htarget] at hkind
    obtain ⟨path, -, hpath⟩ := symbolAt_of_symbolKind hkind
    exact ⟨path, hpath⟩
  have hsymbol := h.withSymbol hdata hcontainer (pathInside_splitPath decl.path).2 htarget hname
  have hat : (known ++ [decl.path])[d.next.index]? = some decl.path := by
    rw [h.next_eq]
    exact List.getElem?_concat_length
  have hdeclared := hsymbol.declareTypeParameters hat decl.typeParameters
  rwa [List.append_assoc] at hdeclared

/-- A declared symbol is known at its own path, whatever its type parameters are called. -/
theorem LaidOut.symbolAt_of_declare (h : d.LaidOut known added) (hd : d.declare decl = .ok d') :
    d'.symbolAt decl.path = .ok d.next := by
  rw [(h.declare hd).symbolAt_eq_ok_iff, h.next_eq]
  refine lastAt_append_cons fun hmem => ?_
  obtain ⟨name, -, hname⟩ := List.mem_map.1 hmem
  exact joinPath_ne_self _ _ hname

theorem LaidOut.foldlM_declare {symbols : List SymbolDecl} (h : d.LaidOut known added)
    (hd : symbols.foldlM Declarations.declare d = .ok d') :
    d'.LaidOut (known ++ symbols.flatMap SymbolDecl.paths) added := by
  induction symbols generalizing known d with
  | nil =>
    cases hd
    simpa using h
  | cons decl symbols ih =>
    rw [List.foldlM_cons, bind_eq_ok_iff] at hd
    obtain ⟨next, hnext, hd⟩ := hd
    rw [List.flatMap_cons, ← List.append_assoc]
    exact ih (h.declare hnext) hd

theorem laidOut_of_foldlM_declare {symbols : List SymbolDecl} (hd : symbols.foldlM declare initial = .ok d) :
    d.LaidOut (knownPaths symbols) [] :=
  laidOut_initial.foldlM_declare hd

end Declarations

end NameResolution
