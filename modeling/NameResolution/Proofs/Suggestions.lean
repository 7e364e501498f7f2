import Mathlib.Data.List.Destutter
import Mathlib.Data.List.Permutation
import Mathlib.Data.List.Sort
import Mathlib.Data.Prod.Lex
import Mathlib.Data.String.Basic
import NameResolution.Proofs.Chain.Resolving
import NameResolution.Proofs.EditDistance

/-! Which names are suggested. The names similar to a given one have exactly one order by distance and
code points, so that suggestions depend only on which names are available. It also makes no difference
whether repetitions are removed first or, once sorting has brought them together, from neighbours. -/

namespace NameResolution

variable {name : String} {available : List String} {maxDistance : Nat}

/-! ### The order of suggestions -/

/-- The first of two names is suggested before the second: it is nearer to the given name, or as near
and earlier in the order of code points. -/
def Closer (name a b : String) : Prop :=
  editDistance name.toList a.toList < editDistance name.toList b.toList ∨
    editDistance name.toList a.toList = editDistance name.toList b.toList ∧ a < b

/-- A name with its distance, ordered by distance first. -/
def rank (name other : String) : ℕ ×ₗ String := toLex (editDistance name.toList other.toList, other)

theorem closer_iff {a b : String} : Closer name a b ↔ rank name a < rank name b := by
  rw [rank, rank, Prod.Lex.toLex_lt_toLex]
  rfl

theorem rank_injective (name : String) : Function.Injective (rank name) := by
  intro a b h
  exact (Prod.mk.inj (toLex.injective h)).2

instance : Std.Irrefl (Closer name) := ⟨fun _ h => lt_irrefl _ (closer_iff.1 h)⟩

instance : Std.Antisymm (Closer name) :=
  ⟨fun _ _ hab hba => absurd (closer_iff.1 hba) (lt_asymm (closer_iff.1 hab))⟩

/-- The order decides between any two names. -/
theorem closer_of_le_of_ne {a b : String} (hle : rank name a ≤ rank name b) (hne : a ≠ b) : Closer name a b :=
  closer_iff.2 (lt_of_le_of_ne hle fun h => hne (rank_injective name h))

/-! ### Sorting -/

theorem ranksBefore_iff {a b : Nat × String} : ranksBefore a b = true ↔ toLex a ≤ toLex b := by
  rw [Prod.Lex.toLex_le_toLex]
  simp [ranksBefore]

theorem pairwise_mergeSort_ranksBefore (entries : List (Nat × String)) :
    (entries.mergeSort ranksBefore).Pairwise fun a b => toLex a ≤ toLex b := by
  have htrans : ∀ a b c, ranksBefore a b = true → ranksBefore b c = true → ranksBefore a c = true := by
    intro a b c hab hbc
    exact ranksBefore_iff.2 ((ranksBefore_iff.1 hab).trans (ranksBefore_iff.1 hbc))
  have htotal : ∀ a b, (ranksBefore a b || ranksBefore b a) = true := by
    intro a b
    rw [Bool.or_eq_true, ranksBefore_iff, ranksBefore_iff]
    exact le_total _ _
  exact (List.pairwise_mergeSort htrans htotal entries).imp ranksBefore_iff.1

/-- Sorting entries that carry their distance puts the names in order. -/
theorem pairwise_rank_mergeSort {entries : List (Nat × String)}
    (hdistance : ∀ entry ∈ entries, entry.1 = editDistance name.toList entry.2.toList) :
    ((entries.mergeSort ranksBefore).map Prod.snd).Pairwise fun a b => rank name a ≤ rank name b := by
  have hrank : ∀ entry ∈ entries.mergeSort ranksBefore, toLex entry = rank name entry.2 := by
    intro entry hentry
    rw [rank, ← hdistance entry (List.mem_mergeSort.1 hentry)]
  rw [List.pairwise_map]
  refine (pairwise_mergeSort_ranksBefore entries).imp_of_mem fun ha hb hle => ?_
  rwa [← hrank _ ha, ← hrank _ hb]

theorem pairwise_closer {names : List String} (hsorted : names.Pairwise fun a b => rank name a ≤ rank name b)
    (hnodup : names.Nodup) : names.Pairwise (Closer name) :=
  (hsorted.and hnodup).imp fun h => closer_of_le_of_ne h.1 h.2

/-! ### The ranking of the similar names -/

/-- All similar names in the order in which they are suggested. -/
def ranking (maxDistance : Nat) (name : String) (available : List String) : List String :=
  ((similarNames maxDistance name available).mergeSort ranksBefore).map Prod.snd

theorem suggestions_eq (settings : SuggestionSettings) (name : String) (available : List String) :
    suggestions settings name available =
      if settings.enabled then (ranking settings.maxDistance name available).take settings.maxCount else [] :=
  rfl

theorem mem_similarNames_iff {entry : Nat × String} : entry ∈ similarNames maxDistance name available ↔
    entry.2 ∈ available ∧ entry.2 ≠ name ∧ entry.1 = editDistance name.toList entry.2.toList ∧
      entry.1 ≤ maxDistance := by
  obtain ⟨distance, other⟩ := entry
  simp only [similarNames, List.mem_filterMap, List.mem_filter, ← OrderedSet.mem_def, OrderedSet.mem_ofList,
    bne_iff_ne, Option.ite_none_right_eq_some, Option.some.injEq, Prod.mk.injEq]
  constructor
  · rintro ⟨_, ⟨hmem, hne⟩, hle, rfl, rfl⟩
    exact ⟨hmem, hne, rfl, hle⟩
  · rintro ⟨hmem, hne, rfl, hle⟩
    exact ⟨other, ⟨hmem, hne⟩, hle, rfl, rfl⟩

theorem mem_ranking_iff {other : String} : other ∈ ranking maxDistance name available ↔
    other ∈ available ∧ other ≠ name ∧ editDistance name.toList other.toList ≤ maxDistance := by
  simp only [ranking, List.mem_map, List.mem_mergeSort, mem_similarNames_iff]
  constructor
  · rintro ⟨entry, ⟨hmem, hne, hdistance, hle⟩, rfl⟩
    exact ⟨hmem, hne, hdistance ▸ hle⟩
  · rintro ⟨hmem, hne, hle⟩
    exact ⟨(_, other), ⟨hmem, hne, rfl, hle⟩, rfl⟩

theorem nodup_similarNames (maxDistance : Nat) (name : String) (available : List String) :
    (similarNames maxDistance name available).Nodup := by
  refine ((OrderedSet.ofList available).nodup.filter _).filterMap fun a b entry ha hb => ?_
  simp only [Option.mem_def, Option.ite_none_right_eq_some, Option.some.injEq] at ha hb
  exact (congrArg Prod.snd ha.2).trans (congrArg Prod.snd hb.2).symm

theorem nodup_ranking (maxDistance : Nat) (name : String) (available : List String) :
    (ranking maxDistance name available).Nodup := by
  have hperm : (ranking maxDistance name available).Perm
      ((similarNames maxDistance name available).map Prod.snd) :=
    (List.mergeSort_perm _ _).map Prod.snd
  rw [hperm.nodup_iff]
  refine (nodup_similarNames maxDistance name available).map_on fun a ha b hb hname => ?_
  have hdistance : a.1 = b.1 := by
    rw [(mem_similarNames_iff.1 ha).2.2.1, (mem_similarNames_iff.1 hb).2.2.1, hname]
  exact Prod.ext hdistance hname

theorem pairwise_ranking (maxDistance : Nat) (name : String) (available : List String) :
    (ranking maxDistance name available).Pairwise (Closer name) :=
  pairwise_closer (pairwise_rank_mergeSort fun _ hentry => (mem_similarNames_iff.1 hentry).2.2.1)
    (nodup_ranking maxDistance name available)

/-- There is only one way to put the similar names in order. -/
theorem eq_ranking {names : List String} (hsorted : names.Pairwise (Closer name))
    (hmem : ∀ other, other ∈ names ↔
      other ∈ available ∧ other ≠ name ∧ editDistance name.toList other.toList ≤ maxDistance) :
    names = ranking maxDistance name available :=
  hsorted.eq_of_mem_iff (pairwise_ranking maxDistance name available) fun other =>
    (hmem other).trans mem_ranking_iff.symm

/-! ### What suggestions depend on -/

/-- Only which names are available matters, not how they are listed. -/
theorem suggestions_congr (settings : SuggestionSettings) (name : String) {listed : List String}
    (hmem : ∀ other, other ∈ listed ↔ other ∈ available) :
    suggestions settings name listed = suggestions settings name available := by
  have hranking : ranking settings.maxDistance name listed = ranking settings.maxDistance name available :=
    eq_ranking (pairwise_ranking _ _ _) fun other => by rw [mem_ranking_iff, hmem]
  rw [suggestions_eq, hranking, ← suggestions_eq]

theorem suggestions_sublist_ranking (settings : SuggestionSettings) (name : String) (available : List String) :
    (suggestions settings name available).Sublist (ranking settings.maxDistance name available) := by
  rw [suggestions_eq]
  split
  · exact List.take_sublist _ _
  · exact List.nil_sublist _

theorem suggestions_isPrefix (settings : SuggestionSettings) (name : String) (available : List String)
    {fewer : Nat} (hfewer : fewer ≤ settings.maxCount) :
    suggestions { settings with maxCount := fewer } name available <+: suggestions settings name available := by
  rw [suggestions_eq, suggestions_eq]
  dsimp only
  split
  · exact List.take_prefix_take_left hfewer
  · exact List.prefix_rfl

/-! ### Removing repetitions after sorting -/

/-- The similar names with their distances, as often as they are available. -/
def similarOccurrences (maxDistance : Nat) (name : String) (available : List String) : List (Nat × String) :=
  ((available.filter (· != name)).map fun other => (editDistance name.toList other.toList, other)).filter
    fun entry => decide (entry.1 ≤ maxDistance)

/-- Sorts all occurrences and then keeps a name only if it differs from the one kept before it. -/
def rankingOfOccurrences (maxDistance : Nat) (name : String) (available : List String) : List String :=
  (((similarOccurrences maxDistance name available).mergeSort ranksBefore).destutter
    fun a b => a.2 ≠ b.2).map Prod.snd

theorem mem_similarOccurrences_iff {entry : Nat × String} :
    entry ∈ similarOccurrences maxDistance name available ↔
      entry ∈ similarNames maxDistance name available := by
  rw [mem_similarNames_iff]
  obtain ⟨distance, other⟩ := entry
  simp only [similarOccurrences, List.mem_filter, List.mem_map, bne_iff_ne, Prod.mk.injEq, decide_eq_true_eq]
  constructor
  · rintro ⟨⟨_, ⟨hmem, hne⟩, rfl, rfl⟩, hle⟩
    exact ⟨hmem, hne, rfl, hle⟩
  · rintro ⟨hmem, hne, rfl, hle⟩
    exact ⟨⟨other, ⟨hmem, hne⟩, rfl, rfl⟩, hle⟩

/-- Equal names have equal distances, so that sorting leaves nothing between them. -/
theorem rankingOfOccurrences_eq (maxDistance : Nat) (name : String) (available : List String) :
    rankingOfOccurrences maxDistance name available = ranking maxDistance name available := by
  have hsorted : (((similarOccurrences maxDistance name available).mergeSort ranksBefore).map Prod.snd).Pairwise
      fun a b => rank name a ≤ rank name b :=
    pairwise_rank_mergeSort fun _ hentry =>
      (mem_similarNames_iff.1 (mem_similarOccurrences_iff.1 hentry)).2.2.1
  have hneighbours : rankingOfOccurrences maxDistance name available =
      (((similarOccurrences maxDistance name available).mergeSort ranksBefore).map Prod.snd).dedup := by
    have hantisymm : Std.Antisymm fun a b => rank name a ≤ rank name b :=
      ⟨fun _ _ hab hba => rank_injective name (le_antisymm hab hba)⟩
    rw [← hsorted.destutter_eq_dedup]
    exact List.map_destutter fun _ _ _ _ => Iff.rfl
  rw [hneighbours]
  have hcloser := pairwise_closer (hsorted.sublist (List.dedup_sublist _)) (List.nodup_dedup _)
  refine eq_ranking hcloser fun other => ?_
  rw [List.mem_dedup, ← mem_ranking_iff, ranking]
  simp only [List.mem_map, List.mem_mergeSort, mem_similarOccurrences_iff]

/-! ### The suggestions of a resolution -/

/-- A name is reported as undefined with the similar names among those visible along the chain. -/
theorem Resolver.eq_of_resolve_undefined {r : Resolver} {chain : ScopeChain} {request : LookupRequest}
    {cancelled : Bool} {sink : Diagnostics} {missing : String} {similar : List String}
    (h : (r.resolve chain request cancelled sink).1 = .error (.unresolved (.undefined missing similar))) :
    similar = suggestions r.settings missing (r.visibleTexts chain request.options) := by
  obtain ⟨outcome, sink', hlookup⟩ : ∃ outcome sink',
      r.lookup chain request cancelled sink = (outcome, sink') := ⟨_, _, rfl⟩
  cases outcome with
  | error reason =>
    rw [resolve, hlookup] at h
    cases reason <;> cases h
  | ok result =>
    rw [resolve_of_lookup_ok hlookup] at h
    cases hkind : result.kind with
    | viable =>
      rw [errorOf?_of_viable hkind] at h
      cases h
    | empty =>
      rw [errorOf?_of_empty hkind] at h
      cases h
      rfl
    | ambiguous =>
      rw [errorOf?_of_ambiguous hkind] at h
      cases h
    | notViable =>
      cases hfirst : result.rejections.head? with
      | none =>
        simp [errorOf?, LookupResult.toError?, hkind, hfirst] at h
      | some first =>
        rw [errorOf?_of_notViable hkind hfirst] at h
        cases h

/-- Suggestions are the first similar names in the one order that puts nearer names first and equally
near ones in the order of code points. They depend on which names are available, not on the order or
the number of times in which these are listed, so a resolution suggests the same whatever the order
in which the visible names are collected. -/
theorem suggestions_first_in_unique_order (settings : SuggestionSettings) (name : String)
    (available : List String) :
    let found := suggestions settings name available
    (∀ other : String,
      IsLeast {n | EditsTo n name.toList other.toList} (editDistance name.toList other.toList)) ∧
    (settings.enabled = false → found = []) ∧
    (settings.enabled = true → ∃ similar : List String, similar.Pairwise (Closer name) ∧
      (∀ other, other ∈ similar ↔
        other ∈ available ∧ other ≠ name ∧ editDistance name.toList other.toList ≤ settings.maxDistance) ∧
      similar = rankingOfOccurrences settings.maxDistance name available ∧
      found = similar.take settings.maxCount) ∧
    found.Nodup ∧ name ∉ found ∧
    (∀ listed : List String, (∀ other, other ∈ listed ↔ other ∈ available) →
      suggestions settings name listed = found) ∧
    (∀ fewer ≤ settings.maxCount, suggestions { settings with maxCount := fewer } name available <+: found) ∧
    ∀ (r : Resolver) (chain : ScopeChain) (request : LookupRequest) (cancelled : Bool) (sink : Diagnostics)
      (similar : List String), r.settings = settings →
      (∀ other, other ∈ available ↔ other ∈ r.visibleTexts chain request.options) →
      (r.resolve chain request cancelled sink).1 = .error (.unresolved (.undefined name similar)) →
      similar = found := by
  intro found
  have hsublist : found.Sublist (ranking settings.maxDistance name available) :=
    suggestions_sublist_ranking settings name available
  refine ⟨fun other => isLeast_editDistance _ _, fun hdisabled => ?_, fun henabled => ?_,
    hsublist.nodup (nodup_ranking _ _ _), fun hname => ?_, fun listed => suggestions_congr settings name,
    fun fewer => suggestions_isPrefix settings name available,
    fun r chain request cancelled sink similar hsettings hmem hundefined => ?_⟩
  · rw [show found = _ from suggestions_eq settings name available, hdisabled]
    rfl
  · refine ⟨_, pairwise_ranking _ _ _, fun other => mem_ranking_iff,
      (rankingOfOccurrences_eq settings.maxDistance name available).symm, ?_⟩
    rw [show found = _ from suggestions_eq settings name available, henabled]
    rfl
  · exact (mem_ranking_iff.1 (hsublist.subset hname)).2.1 rfl
  · rw [Resolver.eq_of_resolve_undefined hundefined, hsettings]
    exact suggestions_congr settings name fun other => (hmem other).symm

/-- The global namespace declares two types with similar names. -/
def twoSimilarTypes : Resolver where
  names := ⟨.ofList ["", "Count", "Counter"]⟩
  table := ((Builder.start .empty).declareAll
    [.symbol { name := ⟨1⟩, kind := .typeDecl .classType, container := some ⟨0⟩ },
      .symbol { name := ⟨2⟩, kind := .typeDecl .classType, container := some ⟨0⟩ }]).table

/-- The visible names are listed backwards and one of them twice. -/
theorem suggestions_first_in_unique_order_twoSimilarTypes :
    let r := twoSimilarTypes
    let chain : ScopeChain := [.ofNamespace ⟨0⟩]
    let request : LookupRequest := { name := "Coutn" }
    let available := ["Counter", "Count", "Counter"]
    let found := suggestions r.settings "Coutn" available
    r.settings.enabled = true ∧ (∀ other, other ∈ available ↔ other ∈ r.visibleTexts chain request.options) ∧
      found = ["Count", "Counter"] ∧ suggestions { r.settings with maxCount := 1 } "Coutn" available <+: found ∧
      (∃ similar : List String, similar.Pairwise (Closer "Coutn") ∧ found = similar.take 3) ∧
      (r.resolve chain request false ∅).1 = .error (.unresolved (.undefined "Coutn" found)) := by
  intro r chain request available found
  obtain ⟨-, -, henabled, -, -, -, hfewer, hresolved⟩ :=
    suggestions_first_in_unique_order r.settings "Coutn" available
  have hvisible : r.visibleTexts chain request.options = ["Count", "Counter"] := by decide +kernel
  have hmem : ∀ other, other ∈ available ↔ other ∈ r.visibleTexts chain request.options := by
    intro other
    rw [hvisible]
    simp only [available, List.mem_cons, List.not_mem_nil, or_false]
    tauto
  have hempty : (r.lookup chain request false ∅).1 = .ok .empty := by decide +kernel
  have hundefined : (r.resolve chain request false ∅).1 = .error (.unresolved (.undefined "Coutn"
      (suggestions r.settings "Coutn" (r.visibleTexts chain request.options)))) := by
    rw [Resolver.resolve_of_lookup_ok (Prod.ext hempty rfl), Resolver.errorOf?_of_empty rfl]
    rfl
  have hsame := hresolved r chain request false ∅ _ rfl hmem hundefined
  obtain ⟨similar, hsorted, -, -, htake⟩ := henabled rfl
  have hfound : suggestions {} "Coutn" ["Counter", "Count", "Counter"] = ["Count", "Counter"] := by cbv
  refine ⟨rfl, hmem, hfound, hfewer 1 (by decide), ⟨similar, hsorted, htake⟩, ?_⟩
  rw [hundefined, hsame]

end NameResolution
