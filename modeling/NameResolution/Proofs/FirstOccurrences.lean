import Mathlib.Data.List.Nodup
import NameResolution.OrderedSet

/-! The first occurrences in a list, where two elements count as the same if they have
the same key. Repetitions may be dropped in any order and group by group. What is inserted
into an ordered set is the case in which every element is its own key. -/

namespace NameResolution

section Lists

variable {α β κ : Type} [DecidableEq κ] {key : α → κ}

/-- The elements whose key is neither in `seen` nor the key of an earlier element. -/
def newByKey (key : α → κ) (seen : List κ) : List α → List α
  | [] => []
  | x :: xs =>
    if key x ∈ seen then newByKey key seen xs else x :: newByKey key (seen ++ [key x]) xs

@[simp] theorem newByKey_nil (seen : List κ) : newByKey key seen [] = [] := rfl

theorem newByKey_cons_of_mem {seen : List κ} {x : α} (h : key x ∈ seen) (xs : List α) :
    newByKey key seen (x :: xs) = newByKey key seen xs := by
  rw [newByKey, if_pos h]

theorem newByKey_cons_of_not_mem {seen : List κ} {x : α} (h : key x ∉ seen) (xs : List α) :
    newByKey key seen (x :: xs) = x :: newByKey key (seen ++ [key x]) xs := by
  rw [newByKey, if_neg h]

/-- Only which keys of the list have been seen matters. -/
theorem newByKey_congr {seen seen' : List κ} {xs : List α}
    (h : ∀ x ∈ xs, (key x ∈ seen ↔ key x ∈ seen')) : newByKey key seen xs = newByKey key seen' xs := by
  induction xs generalizing seen seen' with
  | nil => rfl
  | cons x xs ih =>
    have hx := h x List.mem_cons_self
    have htail := fun y hy => h y (List.mem_cons_of_mem x hy)
    by_cases hs : key x ∈ seen
    · rw [newByKey_cons_of_mem hs, newByKey_cons_of_mem (hx.1 hs)]
      exact ih htail
    · rw [newByKey_cons_of_not_mem hs, newByKey_cons_of_not_mem (fun hc => hs (hx.2 hc))]
      congr 1
      apply ih
      intro y hy
      rw [List.mem_append, List.mem_append, htail y hy]

theorem newByKey_append (seen : List κ) (xs ys : List α) :
    newByKey key seen (xs ++ ys) =
      newByKey key seen xs ++ newByKey key (seen ++ (newByKey key seen xs).map key) ys := by
  induction xs generalizing seen with
  | nil => simp
  | cons x xs ih =>
    by_cases hs : key x ∈ seen
    · rw [List.cons_append, newByKey_cons_of_mem hs, newByKey_cons_of_mem hs, ih]
    · rw [List.cons_append, newByKey_cons_of_not_mem hs, newByKey_cons_of_not_mem hs, ih]
      simp

theorem mem_map_newByKey {seen : List κ} {xs : List α} {k : κ} :
    k ∈ (newByKey key seen xs).map key ↔ k ∈ xs.map key ∧ k ∉ seen := by
  induction xs generalizing seen with
  | nil => simp
  | cons x xs ih =>
    by_cases hs : key x ∈ seen
    · rw [newByKey_cons_of_mem hs, ih, List.map_cons, List.mem_cons]
      constructor
      · exact fun h => ⟨Or.inr h.1, h.2⟩
      · rintro ⟨rfl | h, hk⟩
        · exact absurd hs hk
        · exact ⟨h, hk⟩
    · rw [newByKey_cons_of_not_mem hs, List.map_cons, List.mem_cons, ih, List.map_cons, List.mem_cons]
      by_cases hk : k = key x
      · subst hk
        simp [hs]
      · simp [hk]

theorem mem_newByKey {seen xs : List κ} {x : κ} : x ∈ newByKey id seen xs ↔ x ∈ xs ∧ x ∉ seen := by
  have h := @mem_map_newByKey κ κ _ id seen xs x
  rwa [List.map_id, List.map_id] at h

theorem newByKey_eq_nil_iff {seen : List κ} {xs : List α} :
    newByKey key seen xs = [] ↔ ∀ x ∈ xs, key x ∈ seen := by
  induction xs with
  | nil => simp
  | cons x xs ih =>
    by_cases hs : key x ∈ seen
    · rw [newByKey_cons_of_mem hs, ih]
      simp [hs]
    · rw [newByKey_cons_of_not_mem hs]
      simp [hs]

theorem newByKey_sublist (seen : List κ) (xs : List α) : (newByKey key seen xs).Sublist xs := by
  induction xs generalizing seen with
  | nil => exact List.nil_sublist []
  | cons x xs ih =>
    by_cases hs : key x ∈ seen
    · rw [newByKey_cons_of_mem hs]
      exact (ih seen).cons x
    · rw [newByKey_cons_of_not_mem hs]
      exact (ih (seen ++ [key x])).cons_cons x

/-- Nothing is dropped from a list of new and distinct keys. -/
theorem newByKey_eq_self {seen : List κ} {xs : List α} (hnodup : (xs.map key).Nodup)
    (hnew : ∀ x ∈ xs, key x ∉ seen) : newByKey key seen xs = xs := by
  induction xs generalizing seen with
  | nil => rfl
  | cons x xs ih =>
    obtain ⟨hx, htail⟩ := List.nodup_cons.1 hnodup
    rw [newByKey_cons_of_not_mem (hnew x List.mem_cons_self), ih htail]
    intro y hy hmem
    rcases List.mem_append.1 hmem with h | h
    · exact hnew y (List.mem_cons_of_mem x hy) h
    · exact hx (List.mem_singleton.1 h ▸ List.mem_map_of_mem hy)

/-- Dropping what was seen early on makes no difference to dropping it later. -/
theorem newByKey_newByKey {seen seen' : List κ} (h : seen' ⊆ seen) (xs : List α) :
    newByKey key seen (newByKey key seen' xs) = newByKey key seen xs := by
  induction xs generalizing seen seen' with
  | nil => rfl
  | cons x xs ih =>
    by_cases hs' : key x ∈ seen'
    · rw [newByKey_cons_of_mem hs', newByKey_cons_of_mem (h hs'), ih h]
    · rw [newByKey_cons_of_not_mem hs']
      by_cases hs : key x ∈ seen
      · rw [newByKey_cons_of_mem hs, newByKey_cons_of_mem hs]
        exact ih (List.append_subset.2 ⟨h, by simpa using hs⟩)
      · rw [newByKey_cons_of_not_mem hs, newByKey_cons_of_not_mem hs]
        congr 1
        exact ih (List.append_subset.2
          ⟨fun k hk => List.mem_append_left _ (h hk), List.subset_append_right _ _⟩)

/-- A part that comes later may lose what the part before it repeats. -/
theorem newByKey_append_newByKey (seen : List κ) (xs ys : List α) :
    newByKey key seen (xs ++ newByKey key (xs.map key) ys) = newByKey key seen (xs ++ ys) := by
  have hseen : xs.map key ⊆ seen ++ (newByKey key seen xs).map key := by
    intro k hk
    by_cases hs : k ∈ seen
    · exact List.mem_append_left _ hs
    · exact List.mem_append_right _ (mem_map_newByKey.2 ⟨hk, hs⟩)
  rw [newByKey_append, newByKey_append, newByKey_newByKey hseen]

/-- Elements that are their own keys are kept at their first occurrence. -/
theorem newByKey_id_eq_eraseDups (seen xs : List κ) : newByKey id seen xs = (xs.removeAll seen).eraseDups := by
  induction xs generalizing seen with
  | nil => rfl
  | cons x xs ih =>
    by_cases hs : x ∈ seen
    · rw [newByKey_cons_of_mem hs, ih, List.cons_removeAll, if_neg (by simpa using hs)]
    · have hrest : xs.removeAll (seen ++ [x]) = (xs.removeAll seen).filter fun y => !y == x := by
        simp only [List.removeAll, List.filter_filter]
        congr 1
        funext y
        by_cases hy : y = x <;> simp [hy]
      rw [newByKey_cons_of_not_mem hs, ih, List.cons_removeAll, if_pos (by simpa using hs),
        List.eraseDups_cons]
      exact congrArg (fun rest => x :: List.eraseDups rest) hrest

/-- Elements that come in groups may be dropped group by group: a group that comes again
brings nothing new. -/
theorem newByKey_flatMap_newByKey [DecidableEq β] {f : β → List α} {seen : List κ} {groups : List β}
    (h : ∀ b ∈ groups, ∀ x ∈ f b, key x ∈ seen) (bs : List β) :
    newByKey key seen ((newByKey id groups bs).flatMap f) = newByKey key seen (bs.flatMap f) := by
  induction bs generalizing seen groups with
  | nil => rfl
  | cons b bs ih =>
    by_cases hb : b ∈ groups
    · have hnil : newByKey key seen (f b) = [] := newByKey_eq_nil_iff.2 (h b hb)
      rw [newByKey_cons_of_mem hb, ih h, List.flatMap_cons, newByKey_append, hnil]
      simp
    · rw [newByKey_cons_of_not_mem hb, List.flatMap_cons, List.flatMap_cons, newByKey_append,
        newByKey_append]
      congr 1
      apply ih
      intro c hc x hx
      by_cases hseen : key x ∈ seen
      · exact List.mem_append_left _ hseen
      · rcases List.mem_append.1 hc with hc | hc
        · exact absurd (h c hc x hx) hseen
        · rw [List.mem_singleton.1 hc] at hx
          exact List.mem_append_right _ (mem_map_newByKey.2 ⟨List.mem_map_of_mem hx, hseen⟩)

/-- A fold that maintains a list, where a step adds what it picks unless the key is there. -/
theorem foldl_append_newByKey {σ ι : Type} {step : σ → ι → σ} {view : σ → List α} {pick : ι → Option α}
    (h : ∀ s i, view (step s i) = view s ++ newByKey key ((view s).map key) (pick i).toList) (s : σ)
    (is : List ι) :
    view (is.foldl step s) = view s ++ newByKey key ((view s).map key) (is.filterMap pick) := by
  induction is generalizing s with
  | nil => simp
  | cons i is ih =>
    have hcons : (i :: is).filterMap pick = (pick i).toList ++ is.filterMap pick := by
      cases hi : pick i <;> simp [hi]
    rw [List.foldl_cons, ih, h, hcons, newByKey_append, List.map_append, List.append_assoc]

end Lists

namespace OrderedSet

variable {α : Type} [DecidableEq α]

theorem toList_insert (s : OrderedSet α) (a : α) : (s.insert a).toList = s.toList ++ newByKey id s.toList [a] := by
  by_cases ha : a ∈ s
  · rw [insert_of_mem ha, newByKey_cons_of_mem ha, newByKey_nil, List.append_nil]
  · rw [toList_insert_of_not_mem ha, newByKey_cons_of_not_mem ha, newByKey_nil]

theorem toList_insertAll (s : OrderedSet α) (xs : List α) :
    (s.insertAll xs).toList = s.toList ++ newByKey id s.toList xs := by
  have hstep : ∀ (s : OrderedSet α) (a : α),
      (s.insert a).toList = s.toList ++ newByKey id (s.toList.map id) (some a).toList := by
    intro s a
    rw [List.map_id]
    exact toList_insert s a
  have h := foldl_append_newByKey hstep s xs
  rwa [List.map_id, List.filterMap_some] at h

theorem toList_ofList (xs : List α) : (ofList xs).toList = newByKey id [] xs := by
  rw [ofList, toList_insertAll, toList_empty, List.nil_append]

theorem toList_ofList_eq_eraseDups (xs : List α) : (ofList xs).toList = xs.eraseDups := by
  rw [toList_ofList, newByKey_id_eq_eraseDups]
  simp [List.removeAll]

/-- An element comes before those that only a later part of the list adds. -/
theorem pair_sublist_toList_ofList {xs ys : List α} {a b : α} (ha : a ∈ xs) (hb : b ∈ ys) (hnew : b ∉ xs) :
    [a, b].Sublist (ofList (xs ++ ys)).toList := by
  rw [toList_ofList, newByKey_append]
  have hfirst : [a].Sublist (newByKey id [] xs) :=
    List.singleton_sublist.2 (mem_newByKey.2 ⟨ha, List.not_mem_nil⟩)
  refine hfirst.append (List.singleton_sublist.2 (mem_newByKey.2 ⟨hb, ?_⟩))
  rw [List.nil_append, List.map_id]
  exact fun hc => hnew (mem_newByKey.1 hc).1

@[simp] theorem insertAll_nil (s : OrderedSet α) : s.insertAll [] = s := rfl

theorem insertAll_append (s : OrderedSet α) (xs ys : List α) :
    s.insertAll (xs ++ ys) = (s.insertAll xs).insertAll ys := List.foldl_append

/-- Adding a set that has grown is adding the set and then what it has grown by. -/
theorem insertAll_toList_insertAll (s t : OrderedSet α) (xs : List α) :
    s.insertAll (t.insertAll xs).toList = (s.insertAll t.toList).insertAll xs := by
  rw [toList_insertAll t, insertAll_append]
  apply ext
  rw [toList_insertAll _ (newByKey id t.toList xs), toList_insertAll _ xs]
  congr 1
  apply newByKey_newByKey
  intro x hx
  exact mem_insertAll.2 (Or.inr hx)

end OrderedSet

end NameResolution
