import NameResolution.Proofs.FirstOccurrences
import NameResolution.Proofs.Inheritance.Walk

/-! Exploring base types with the current path as the only memory. A type is entered as
often as a path without repetition leads to it, and coming back to a type on the path
closes a cycle. Up to repetition the types are entered in the order of the depth-first
walk: whatever a repeated visit comes across was finished before. -/

namespace NameResolution

/-- What happens when the exploration comes to a type. -/
inductive BaseVisit where
  | entered (ty : SymbolId)
  | cycle (ty : SymbolId)
  deriving DecidableEq

def BaseVisit.entered? : BaseVisit → Option SymbolId
  | entered ty => some ty
  | cycle _ => none

namespace SymbolTable

variable {t : SymbolTable} {follows : SymbolId → Bool}

theorem unseen_congr {seen seen' : List SymbolId} (h : ∀ x, x ∈ seen ↔ x ∈ seen') :
    t.unseen seen = t.unseen seen' := by
  unfold unseen
  congr 1
  funext x
  rw [decide_eq_decide, h]

theorem unseen_append_singleton (s : SymbolId) (seen : List SymbolId) :
    t.unseen (seen ++ [s]) = t.unseen (s :: seen) := by
  apply unseen_congr
  intro x
  simp [or_comm]

theorem unseen_le_size (t : SymbolTable) (seen : List SymbolId) : t.unseen seen ≤ t.size := by
  have h : t.unseen seen ≤ t.ids.length := List.countP_le_length
  rwa [ids, List.length_map, List.length_range] at h

/-- A type that has a base is in the table, so that seeing it for the first time counts. -/
theorem unseen_insert_lt {ty base : SymbolId} {seen : OrderedSet SymbolId} (hbase : base ∈ t.bases ty)
    (hnew : ty ∉ seen) : t.unseen (seen.insert ty).toList < t.unseen seen.toList := by
  have hty : ty.index < t.size := by
    by_contra hout
    rw [bases_eq_nil_of_size_le (Nat.le_of_not_lt hout)] at hbase
    cases hbase
  rw [OrderedSet.toList_insert_of_not_mem hnew, unseen_append_singleton]
  exact unseen_cons_lt hty hnew

theorem followed_eq_nil_of_size_le {ty : SymbolId} (h : t.size ≤ ty.index) : t.followed follows ty = [] := by
  unfold followed
  rw [bases_eq_nil_of_size_le h, ite_self]

/-- The visits to the pending types and to what follows them, the path leading up to each
visit being all that is remembered. -/
def explore (t : SymbolTable) (follows : SymbolId → Bool) (pending path : List SymbolId) : List BaseVisit :=
  match pending with
  | [] => []
  | ty :: rest =>
    if ty ∈ path then .cycle ty :: t.explore follows rest path
    else .entered ty ::
      (t.explore follows (t.followed follows ty) (path ++ [ty]) ++ t.explore follows rest path)
termination_by (t.unseen path, pending.length)
decreasing_by
  · exact Prod.Lex.right _ (Nat.lt_succ_self _)
  · by_cases hs : ty.index < t.size
    · rw [unseen_append_singleton]
      exact Prod.Lex.left _ _ (unseen_cons_lt hs ‹_›)
    · rw [followed_eq_nil_of_size_le (Nat.le_of_not_lt hs), unseen_append_singleton]
      rcases Nat.lt_or_eq_of_le (t.unseen_cons_le ty path) with h | h
      · exact Prod.Lex.left _ _ h
      · rw [h]
        exact Prod.Lex.right _ (Nat.succ_pos _)
  · exact Prod.Lex.right _ (Nat.lt_succ_self _)

@[simp] theorem explore_nil (path : List SymbolId) : t.explore follows [] path = [] := by
  rw [explore]

theorem explore_cons_of_mem {ty : SymbolId} {path : List SymbolId} (h : ty ∈ path)
    (rest : List SymbolId) :
    t.explore follows (ty :: rest) path = .cycle ty :: t.explore follows rest path := by
  rw [explore, if_pos h]

theorem explore_cons_of_not_mem {ty : SymbolId} {path : List SymbolId} (h : ty ∉ path)
    (rest : List SymbolId) : t.explore follows (ty :: rest) path = .entered ty ::
      (t.explore follows (t.followed follows ty) (path ++ [ty]) ++ t.explore follows rest path) := by
  rw [explore, if_neg h]

/-- A pending type either closes a cycle or is entered, and then its base types are
explored at the end of a longer path. -/
@[elab_as_elim] theorem explore_induction (t : SymbolTable) (follows : SymbolId → Bool)
    {motive : List SymbolId → List SymbolId → Prop} (done : ∀ path, motive [] path)
    (cycle : ∀ ty rest path, ty ∈ path → motive rest path → motive (ty :: rest) path)
    (enter : ∀ ty rest path, ty ∉ path → motive (t.followed follows ty) (path ++ [ty]) →
      motive rest path → motive (ty :: rest) path) (pending path : List SymbolId) :
    motive pending path := by
  induction pending, path using explore.induct t follows with
  | case1 path => exact done path
  | case2 path ty rest hmem ih => exact cycle ty rest path hmem ih
  | case3 path ty rest hnew ihBases ihRest => exact enter ty rest path hnew ihBases ihRest

theorem explore_cons (ty : SymbolId) (rest path : List SymbolId) : t.explore follows (ty :: rest) path =
    t.explore follows [ty] path ++ t.explore follows rest path := by
  by_cases h : ty ∈ path
  · rw [explore_cons_of_mem h, explore_cons_of_mem h, explore_nil]
    rfl
  · rw [explore_cons_of_not_mem h, explore_cons_of_not_mem h, explore_nil, List.append_nil]
    rfl

/-- The types entered by an exploration, as often as they are entered. -/
def enteredTypes (t : SymbolTable) (follows : SymbolId → Bool) (pending path : List SymbolId) :
    List SymbolId :=
  (t.explore follows pending path).filterMap BaseVisit.entered?

@[simp] theorem enteredTypes_nil (path : List SymbolId) : t.enteredTypes follows [] path = [] := by
  rw [enteredTypes, explore_nil, List.filterMap_nil]

theorem enteredTypes_cons_of_mem {ty : SymbolId} {path : List SymbolId} (h : ty ∈ path)
    (rest : List SymbolId) :
    t.enteredTypes follows (ty :: rest) path = t.enteredTypes follows rest path := by
  rw [enteredTypes, explore_cons_of_mem h]
  rfl

theorem enteredTypes_cons_of_not_mem {ty : SymbolId} {path : List SymbolId} (h : ty ∉ path)
    (rest : List SymbolId) : t.enteredTypes follows (ty :: rest) path = ty ::
      (t.enteredTypes follows (t.followed follows ty) (path ++ [ty]) ++
        t.enteredTypes follows rest path) := by
  rw [enteredTypes, explore_cons_of_not_mem h, List.filterMap_cons, List.filterMap_append]
  rfl

theorem not_mem_path_of_mem_enteredTypes {pending path : List SymbolId} {x : SymbolId}
    (h : x ∈ t.enteredTypes follows pending path) : x ∉ path := by
  induction pending, path using explore_induction t follows with
  | done path => simp at h
  | cycle ty rest path hmem ih =>
    rw [enteredTypes_cons_of_mem hmem] at h
    exact ih h
  | enter ty rest path hnew ihBases ihRest =>
    rw [enteredTypes_cons_of_not_mem hnew] at h
    rcases List.mem_cons.1 h with rfl | h
    · exact hnew
    · rcases List.mem_append.1 h with h | h
      · exact fun hc => ihBases h (List.mem_append_left _ hc)
      · exact ihRest h

/-! ### Agreement with the walk -/

/-- Of every type seen off the path all base types have been seen. -/
def FinishedOff (t : SymbolTable) (follows : SymbolId → Bool) (path seen : List SymbolId) : Prop :=
  ∀ x ∈ seen, x ∉ path → ∀ b ∈ t.followed follows x, b ∈ seen

/-- An exploration that starts among finished types enters nothing new. -/
theorem FinishedOff.mem_of_mem_enteredTypes {path seen pending longer : List SymbolId}
    (hfin : t.FinishedOff follows path seen) (hpath : path ⊆ longer) (hpending : pending ⊆ seen)
    {x : SymbolId} (h : x ∈ t.enteredTypes follows pending longer) : x ∈ seen := by
  induction pending, longer using explore_induction t follows with
  | done longer => simp at h
  | cycle ty rest longer hmem ih =>
    rw [enteredTypes_cons_of_mem hmem] at h
    exact ih hpath (fun y hy => hpending (List.mem_cons_of_mem ty hy)) h
  | enter ty rest longer hnew ihBases ihRest =>
    rw [enteredTypes_cons_of_not_mem hnew] at h
    have hty : ty ∈ seen := hpending List.mem_cons_self
    rcases List.mem_cons.1 h with rfl | h
    · exact hty
    · rcases List.mem_append.1 h with h | h
      · exact ihBases (fun y hy => List.mem_append_left _ (hpath hy))
          (fun b hb => hfin ty hty (fun hc => hnew (hpath hc)) b hb) h
      · exact ihRest hpath (fun y hy => hpending (List.mem_cons_of_mem ty hy)) h

/-- While a new type is explored, it is on the path itself. -/
theorem FinishedOff.enter {path seen : List SymbolId} (hfin : t.FinishedOff follows path seen)
    (ty : SymbolId) : t.FinishedOff follows (path ++ [ty]) (seen ++ [ty]) := by
  intro x hx hoff b hb
  rcases List.mem_append.1 hx with hx | hx
  · exact List.mem_append_left _ (hfin x hx (fun hc => hoff (List.mem_append_left _ hc)) b hb)
  · exact absurd (List.mem_append_right _ hx) hoff

/-- Once its base types are walked, a new type is finished. -/
theorem FinishedOff.leave {path seen : List SymbolId} (hfin : t.FinishedOff follows path seen)
    (ty : SymbolId) : t.FinishedOff follows path
      (seen ++ [ty] ++ t.walkBases follows (t.followed follows ty) (seen ++ [ty])) := by
  intro x hx hoff b hb
  rw [List.mem_append] at hx ⊢
  rcases hx with hx | hx
  · rcases List.mem_append.1 hx with hx | hx
    · exact Or.inl (List.mem_append_left _ (hfin x hx hoff b hb))
    · rw [List.mem_singleton.1 hx] at hb
      exact mem_walkBases_of_mem_pending hb
  · exact mem_walkBases_of_mem_followed hx hb

theorem newByKey_enteredTypes {pending path seen : List SymbolId} (hpath : path ⊆ seen)
    (hfin : t.FinishedOff follows path seen) :
    newByKey id seen (t.enteredTypes follows pending path) = t.walkBases follows pending seen := by
  induction pending, path using explore_induction t follows generalizing seen with
  | done path => simp
  | cycle ty rest path hmem ih =>
    rw [enteredTypes_cons_of_mem hmem, walkBases_cons_of_mem (hpath hmem)]
    exact ih hpath hfin
  | enter ty rest path hnew ihBases ihRest =>
    rw [enteredTypes_cons_of_not_mem hnew]
    by_cases hseen : ty ∈ seen
    · -- a repeated visit
      have hnil : newByKey id seen (t.enteredTypes follows (t.followed follows ty) (path ++ [ty])) = [] :=
        newByKey_eq_nil_iff.2 fun x hx =>
          hfin.mem_of_mem_enteredTypes (List.subset_append_left _ _) (hfin ty hseen hnew) hx
      rw [newByKey_cons_of_mem hseen, walkBases_cons_of_mem hseen, newByKey_append, hnil, List.map_nil,
        List.append_nil, List.nil_append]
      exact ihRest hpath hfin
    · have hbases := @ihBases (seen ++ [ty])
        (List.append_subset.2 ⟨fun x hx => List.mem_append_left _ (hpath hx), List.subset_append_right _ _⟩)
        (hfin.enter ty)
      have hrest := ihRest (fun x hx => List.mem_append_left _ (List.mem_append_left _ (hpath hx)))
        (hfin.leave ty)
      have hwalk : t.walkBases follows (t.followed follows ty ++ rest) (ty :: seen) =
          t.walkBases follows (t.followed follows ty ++ rest) (seen ++ [ty]) := by
        apply walkBases_congr
        intro x
        simp [or_comm]
      rw [newByKey_cons_of_not_mem hseen, walkBases_cons_of_not_mem hseen, hwalk, walkBases_append,
        newByKey_append]
      simp only [id_eq, List.map_id]
      rw [hbases, hrest]

/-- Up to repetition the exploration enters the types that the walk visits, in its order. -/
theorem newByKey_nil_enteredTypes (t : SymbolTable) (follows : SymbolId → Bool)
    (pending path : List SymbolId) :
    newByKey id [] (t.enteredTypes follows pending path) = t.walkBases follows pending path := by
  have hfin : t.FinishedOff follows path path := fun x hx hoff => absurd hx hoff
  rw [← newByKey_enteredTypes (List.Subset.refl path) hfin]
  apply newByKey_congr
  intro x hx
  simp [not_mem_path_of_mem_enteredTypes hx]

end SymbolTable

end NameResolution
