import NameResolution.Proofs.Chain.Resolving
import NameResolution.Proofs.Results.Reasons

/-! Lookups that tell reasons and lookups that do not. Whether reasons are asked for has no
influence on what is found, on the diagnostics or on whether a lookup is called off, and a
failure differs in nothing but the reason that it tells. -/

namespace NameResolution.Resolver

variable {r : Resolver} {chain : ScopeChain} {request : LookupRequest}

/-! ### Lookups -/

/-- What a lookup finds without reasons is what it finds with them, less the reasons. -/
theorem lookup_diagnosing (hvalid : request.options.isValid = true) (sink : Diagnostics) :
    ∃ result sink', r.lookup chain { request with diagnose := true } false sink = (.ok result, sink') ∧
      r.lookup chain { request with diagnose := false } false sink = (.ok result.withoutReasons, sink') ∧
      ∀ x ∈ result.rejections, ∃ name reason, r.names.find? request.name = some name ∧
        x.reason = some reason ∧ (request.query name).check r.table x.symbol = .notViable reason := by
  cases hname : r.names.find? request.name with
  | none =>
    have hlookup := fun b => @lookup_of_find?_eq_none r { request with diagnose := b } hvalid hname chain sink
    exact ⟨.empty, sink, hlookup true, hlookup false, fun x hx => absurd hx List.not_mem_nil⟩
  | some name =>
    let query := request.query name
    have hlookup := fun b => @lookup_eq r { request with diagnose := b } name hvalid hname chain sink
    have hcandidates := fun b =>
      @ScopeChain.candidates_congr r.table { query with diagnose := b } query rfl rfl chain
    have hsearched := fun b =>
      @ScopeChain.searched_congr r.table { query with diagnose := b } query rfl rfl chain
    have hfindings := fun b x =>
      @Scope.findings_congr r.table { query with diagnose := b } query rfl rfl x ∅
    have hquery : ∀ b, ({ request with diagnose := b } : LookupRequest).query name =
        { query with diagnose := b } := fun b => rfl
    simp only [hquery, hcandidates, hsearched, hfindings] at hlookup
    refine ⟨_, _, hlookup true, ?_, fun x hx => ?_⟩
    · rw [hlookup false, LookupResult.withoutReasons_ofCandidates query]
    · obtain ⟨reason, hreason, hcheck⟩ := LookupResult.reason_of_mem_rejections rfl hx
      exact ⟨name, reason, rfl, hreason, hcheck⟩

/-! ### Resolutions -/

theorem errorOf?_withoutReasons (result : LookupResult) :
    r.errorOf? chain request result.withoutReasons =
      (r.errorOf? chain request result).map ResolutionError.withoutReason := by
  unfold errorOf?
  rw [LookupResult.toError?_withoutReasons]
  cases result.toError? request.name with
  | none => rfl
  | some error => cases error <;> rfl

/-- Resolutions whose lookups differ in the reasons alone differ in the reason of an error alone. -/
theorem resolve_diagnosing {cancelled : Bool} {sink sink' : Diagnostics} {result : LookupResult}
    (hfull : r.lookup chain { request with diagnose := true } cancelled sink = (.ok result, sink'))
    (hbrief : r.lookup chain { request with diagnose := false } cancelled sink =
      (.ok result.withoutReasons, sink')) :
    let fullResolution := r.resolve chain { request with diagnose := true } cancelled sink
    let briefResolution := r.resolve chain { request with diagnose := false } cancelled sink
    fullResolution.2 = briefResolution.2 ∧
      ((∃ found, fullResolution.1 = .ok found ∧ briefResolution.1 = .ok found.withoutReasons) ∨
        ∃ error, fullResolution.1 = .error (.unresolved error) ∧
          briefResolution.1 = .error (.unresolved error.withoutReason)) := by
  have herror : ∀ (b : Bool) (found : LookupResult), r.errorOf? chain { request with diagnose := b } found =
      r.errorOf? chain request found := fun b found => rfl
  rw [resolve_of_lookup_ok hfull, resolve_of_lookup_ok hbrief, herror true, herror false,
    errorOf?_withoutReasons]
  refine ⟨rfl, ?_⟩
  cases r.errorOf? chain request result with
  | none => exact Or.inl ⟨result, rfl, rfl⟩
  | some error => exact Or.inr ⟨error, rfl, rfl⟩

/-- Asking for reasons adds reasons and changes nothing else. Both lookups are called off, or
both find the same with the same diagnostics, and the reasons are those for which the query
turns the symbols down. Both resolutions succeed or both fail with the same error. -/
theorem diagnosing_adds_only_reasons (r : Resolver) (chain : ScopeChain) (request : LookupRequest)
    (hvalid : request.options.isValid = true) (cancelled : Bool) (sink : Diagnostics) :
    let full := r.lookup chain { request with diagnose := true } cancelled sink
    let brief := r.lookup chain { request with diagnose := false } cancelled sink
    let fullResolution := r.resolve chain { request with diagnose := true } cancelled sink
    let briefResolution := r.resolve chain { request with diagnose := false } cancelled sink
    (full.2 = brief.2 ∧
      (cancelled = true ∧ full.1 = .error .cancelled ∧ brief.1 = .error .cancelled ∨
        cancelled = false ∧ ∃ result, full.1 = .ok result ∧ brief.1 = .ok result.withoutReasons ∧
          ∀ x ∈ result.rejections, ∃ name reason, r.names.find? request.name = some name ∧
            x.reason = some reason ∧ (request.query name).check r.table x.symbol = .notViable reason)) ∧
    (fullResolution.2 = briefResolution.2 ∧
      ((∃ result, fullResolution.1 = .ok result ∧ briefResolution.1 = .ok result.withoutReasons) ∨
        ∃ error, fullResolution.1 = .error (.unresolved error) ∧
          briefResolution.1 = .error (.unresolved error.withoutReason))) := by
  intro full brief fullResolution briefResolution
  cases cancelled with
  | true =>
    have hlookup := fun b => @lookup_of_cancelled r chain { request with diagnose := b } hvalid sink
    have hfull : full = (.error .cancelled, sink) := hlookup true
    have hbrief : brief = (.error .cancelled, sink) := hlookup false
    have hfullResolution : fullResolution = _ := resolve_of_lookup_cancelled hfull
    have hbriefResolution : briefResolution = _ := resolve_of_lookup_cancelled hbrief
    rw [hfull, hbrief, hfullResolution, hbriefResolution]
    exact ⟨⟨rfl, Or.inl ⟨rfl, rfl, rfl⟩⟩, rfl, Or.inr ⟨.cancelled, rfl, rfl⟩⟩
  | false =>
    obtain ⟨result, sink', hfull, hbrief, hreasons⟩ :=
      @lookup_diagnosing r chain request hvalid sink
    have hsinks : full.2 = brief.2 := (congrArg Prod.snd hfull).trans (congrArg Prod.snd hbrief).symm
    exact ⟨⟨hsinks, Or.inr ⟨rfl, result, congrArg Prod.fst hfull, congrArg Prod.fst hbrief, hreasons⟩⟩,
      resolve_diagnosing hfull hbrief⟩

/-- Types 2 and 3 are bases of type 1, and type 4 is a base of both and has a private field 5. -/
def privateFieldOfDiamond : Resolver where
  names := ⟨.ofList ["", "x"]⟩
  table :=
    let type : Declaration :=
      .symbol { name := ⟨0⟩, kind := .typeDecl .classType, container := some ⟨0⟩ }
    ((Builder.start .empty).declareAll
      [type, type, type, type,
        .symbol { name := ⟨1⟩, kind := .field, accessibility := .privateAccess, container := some ⟨4⟩ },
        .base ⟨1⟩ ⟨2⟩, .base ⟨1⟩ ⟨3⟩, .base ⟨2⟩ ⟨4⟩, .base ⟨3⟩ ⟨4⟩]).table

theorem diagnosing_adds_only_reasons_diamond :
    let r := privateFieldOfDiamond
    let request : LookupRequest := { name := "x" }
    request.options.isValid = true ∧
      (r.lookup [.ofType ⟨1⟩] { request with diagnose := false } false ∅).1 =
        .ok ⟨.notViable, [], [⟨⟨5⟩, none⟩]⟩ ∧
      (∃ name, (request.query name).check r.table ⟨5⟩ = .notViable .inaccessible) ∧
      (r.resolve [.ofType ⟨1⟩] { request with diagnose := false } false ∅).1 =
        .error (.unresolved (.notViable "x" ⟨5⟩ none)) := by
  intro r request
  have hvalid : request.options.isValid = true := by decide
  have hfound : (r.lookup [.ofType ⟨1⟩] { request with diagnose := true } false ∅).1 =
      .ok ⟨.notViable, [], [⟨⟨5⟩, some .inaccessible⟩]⟩ := by decide +kernel
  have hfailed : (r.resolve [.ofType ⟨1⟩] { request with diagnose := true } false ∅).1 =
      .error (.unresolved (.notViable "x" ⟨5⟩ (some .inaccessible))) := by decide +kernel
  obtain ⟨⟨-, hlookups⟩, -, hresolutions⟩ :=
    diagnosing_adds_only_reasons r [.ofType ⟨1⟩] request hvalid false ∅
  rw [hfound] at hlookups
  rw [hfailed] at hresolutions
  obtain ⟨hraised, -⟩ | ⟨-, result, hresult, hbrief, hreasons⟩ := hlookups
  · cases hraised
  cases hresult
  obtain ⟨result, hresult, -⟩ | ⟨error, herror, hbriefError⟩ := hresolutions
  · cases hresult
  cases herror
  obtain ⟨name, reason, -, hreason, hcheck⟩ := hreasons _ List.mem_cons_self
  cases hreason
  exact ⟨hvalid, hbrief, ⟨name, hcheck⟩, hbriefError⟩

end NameResolution.Resolver
