import NameResolution.Proofs.Chain.Totality

/-! From lookups to resolutions. What a lookup has found decides whether the resolution of the
same name succeeds and which error it ends with otherwise. The kind of a result and its lists
go together, so that nothing without a usable symbol passes for a success. -/

namespace NameResolution

namespace Resolver

variable {r : Resolver} {chain : ScopeChain} {request : LookupRequest}

theorem consistent_of_lookup_ok (hvalid : request.options.isValid = true) {sink sink' : Diagnostics}
    {found : LookupResult} (h : r.lookup chain request false sink = (.ok found, sink')) :
    found.Consistent r.table := by
  cases hname : r.names.find? request.name with
  | none =>
    rw [lookup_of_find?_eq_none hvalid hname] at h
    cases h
    exact LookupResult.consistent_empty r.table
  | some name =>
    rw [lookup_eq hvalid hname] at h
    cases h
    exact LookupResult.consistent_collect _ _ _

/-! ### The error of a result -/

section

variable {found : LookupResult}

theorem errorOf?_of_viable (hkind : found.kind = .viable) : r.errorOf? chain request found = none := by
  simp only [errorOf?, LookupResult.toError?, hkind]

/-- The error of an empty result lists the visible names that are similar. -/
theorem errorOf?_of_empty (hkind : found.kind = .empty) : r.errorOf? chain request found =
    some (.undefined request.name
      (suggestions r.settings request.name (r.visibleTexts chain request.options))) := by
  simp only [errorOf?, LookupResult.toError?, hkind]

theorem errorOf?_of_ambiguous (hkind : found.kind = .ambiguous) :
    r.errorOf? chain request found = some (.ambiguous request.name found.symbols) := by
  simp only [errorOf?, LookupResult.toError?, hkind]

/-- The error of a result without viable symbols is that of its first rejection. -/
theorem errorOf?_of_notViable (hkind : found.kind = .notViable) {first : Rejection}
    (hfirst : found.rejections.head? = some first) : r.errorOf? chain request found =
      some (.notViable request.name first.symbol first.reason) := by
  simp only [errorOf?, LookupResult.toError?, hkind, hfirst, Option.map_some]

end

/-! ### Resolutions -/

theorem resolve_of_lookup_ok {cancelled : Bool} {sink sink' : Diagnostics} {result : LookupResult}
    (h : r.lookup chain request cancelled sink = (.ok result, sink')) :
    r.resolve chain request cancelled sink =
      ((r.errorOf? chain request result).elim (.ok result) fun error => .error (.unresolved error), sink') := by
  rw [resolve, h]
  dsimp only
  cases r.errorOf? chain request result <;> rfl

theorem resolve_of_lookup_cancelled {cancelled : Bool} {sink sink' : Diagnostics}
    (h : r.lookup chain request cancelled sink = (.error .cancelled, sink')) :
    r.resolve chain request cancelled sink = (.error (.unresolved .cancelled), sink') := by
  rw [resolve, h]

/-- A resolution comes to what its lookup has found. It succeeds on viable results, fails with
the error that goes with any other kind of result, and is called off with the lookup. -/
theorem resolve_determined_by_lookup (r : Resolver) (chain : ScopeChain) (request : LookupRequest)
    (hvalid : request.options.isValid = true) (cancelled : Bool) (sink : Diagnostics) :
    let lookup := r.lookup chain request cancelled sink
    let resolution := r.resolve chain request cancelled sink
    resolution.2 = lookup.2 ∧
    (∀ found, lookup.1 = .ok found → found.KindFits r.table) ∧
    (∀ found, resolution.1 = .ok found ↔ lookup.1 = .ok found ∧ found.kind = .viable) ∧
    (∀ found, resolution.1 = .ok found → found.symbols ≠ []) ∧
    (∀ name similar, resolution.1 = .error (.unresolved (.undefined name similar)) ↔
      ∃ found, lookup.1 = .ok found ∧ found.kind = .empty ∧ request.name = name ∧
        suggestions r.settings request.name (r.visibleTexts chain request.options) = similar) ∧
    (∀ name candidates, resolution.1 = .error (.unresolved (.ambiguous name candidates)) ↔
      ∃ found, lookup.1 = .ok found ∧ found.kind = .ambiguous ∧ request.name = name ∧
        found.symbols = candidates) ∧
    (∀ name symbol reason, resolution.1 = .error (.unresolved (.notViable name symbol reason)) ↔
      ∃ found, lookup.1 = .ok found ∧ found.kind = .notViable ∧ request.name = name ∧
        found.rejections.head? = some ⟨symbol, reason⟩) ∧
    (resolution.1 = .error (.unresolved .cancelled) ↔ cancelled = true) ∧
    ∀ rule, resolution.1 ≠ .error (.violation rule) := by
  intro lookup resolution
  cases cancelled with
  | true =>
    have hlookup : lookup = (.error .cancelled, sink) := r.lookup_of_cancelled chain hvalid sink
    have hresolution : resolution = (.error (.unresolved .cancelled), sink) :=
      resolve_of_lookup_cancelled hlookup
    rw [hlookup, hresolution]
    simp
  | false =>
    obtain ⟨found, sink', hfound⟩ := r.exists_lookup_eq_ok chain hvalid sink
    have hlookup : lookup = (.ok found, sink') := hfound
    have hresolution : resolution = _ := resolve_of_lookup_ok hfound
    have hfits : found.KindFits r.table := (consistent_of_lookup_ok hvalid hfound).kindFits
    rw [hlookup, hresolution]
    refine ⟨rfl, fun _ hok => by cases hok; exact hfits, ?_⟩
    cases hkind : found.kind with
    | viable =>
      have hsome : found.symbols ≠ [] := by
        intro hnone
        have hviable := hfits.viable hkind
        rw [hnone] at hviable
        simp at hviable
      rw [errorOf?_of_viable hkind]
      simp [hkind, hsome]
    | empty =>
      rw [errorOf?_of_empty hkind]
      simp [hkind]
    | ambiguous =>
      rw [errorOf?_of_ambiguous hkind]
      simp [hkind]
    | notViable =>
      obtain ⟨⟨symbol, reason⟩, rest, hrejections⟩ := List.exists_cons_of_ne_nil (hfits.notViable hkind).2
      have hfirst : found.rejections.head? = some ⟨symbol, reason⟩ := by rw [hrejections, List.head?_cons]
      rw [errorOf?_of_notViable hkind hfirst]
      simp [hkind, hfirst]

/-- Type 1 has a method 2 and a field 3 of one name. -/
def methodAndField : Resolver where
  names := ⟨.ofList ["", "x"]⟩
  table := ((Builder.start .empty).declareAll
    [.symbol { name := ⟨0⟩, kind := .typeDecl .classType, container := some ⟨0⟩ },
      .symbol { name := ⟨1⟩, kind := .method, container := some ⟨1⟩ },
      .symbol { name := ⟨1⟩, kind := .field, container := some ⟨1⟩ }]).table

theorem resolve_determined_by_lookup_methodAndField :
    let r := methodAndField
    let request : LookupRequest := { name := "x" }
    request.options.isValid = true ∧
      ∃ found, (r.lookup [.ofType ⟨1⟩] request false ∅).1 = .ok found ∧ found.kind = .ambiguous ∧
        (∃ s ∈ found.symbols, (r.table.data s).isMethod = false) ∧
        (r.resolve [.ofType ⟨1⟩] request false ∅).1 = .error (.unresolved (.ambiguous "x" found.symbols)) ∧
        (r.resolve [.ofType ⟨1⟩] request true ∅).1 = .error (.unresolved .cancelled) := by
  intro r request
  have hvalid : request.options.isValid = true := by decide
  have hfound : (r.lookup [.ofType ⟨1⟩] request false ∅).1 = .ok ⟨.ambiguous, [⟨2⟩, ⟨3⟩], []⟩ := by
    decide +kernel
  obtain ⟨-, hfits, -, -, -, hambiguous, -, -, -⟩ :=
    resolve_determined_by_lookup r [.ofType ⟨1⟩] request hvalid false ∅
  obtain ⟨-, -, -, -, -, -, -, hcancelled, -⟩ :=
    resolve_determined_by_lookup r [.ofType ⟨1⟩] request hvalid true ∅
  exact ⟨hvalid, _, hfound, rfl, ((hfits _ hfound).ambiguous rfl).2.2,
    (hambiguous _ _).2 ⟨_, hfound, rfl, rfl, rfl⟩, hcancelled.2 rfl⟩

end Resolver

end NameResolution
