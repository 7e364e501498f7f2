import NameResolution.Proofs.EditDistance

/-! Two rows are enough to compute a distance. The spare row is filled out of the row above it, over
whatever it held before, and then the rows change places. Every entry that is read or written lies in
its row, and what comes out is the least number of edits, so that the laws of a metric are read off
sequences of edits. -/

namespace NameResolution

variable {above row spare passed done stale : List Nat} {source target : List Char} {left count : Nat}

/-! ### Filling rows in place -/

/-- Overwrites an entry of a row. There is no answer outside of the row. -/
def overwrite? (row : List Nat) (index value : Nat) : Option (List Nat) :=
  if index < row.length then some (row.set index value) else none

/-- Overwrites the entries behind `index` from left to right, each out of the one before it and the two
above. -/
def fillRow? (c : Char) (above : List Nat) : Nat → List Char → List Nat → Option (List Nat)
  | _, [], row => some row
  | index, d :: target, row => do
    let up ← above[index + 1]?
    let left ← row[index]?
    let diagonal ← above[index]?
    let row ← overwrite? row (index + 1) (min (min (up + 1) (left + 1)) (diagonal + substitutionCost c d))
    fillRow? c above (index + 1) target row

/-- Fills the spare row for the next character of the source, of which `count` have been read, and then
goes on with the rows exchanged. -/
def fillRows? (target : List Char) : Nat → List Char → List Nat → List Nat → Option (List Nat)
  | _, [], row, _ => some row
  | count, c :: source, row, spare => do
    let spare ← overwrite? spare 0 (count + 1)
    let spare ← fillRow? c row 0 target spare
    fillRows? target (count + 1) source spare row

/-- The distance as computed in two rows, if every entry that is read or written is there. -/
def editDistanceInPlace? (source target : List Char) : Option Nat := do
  let row ← fillRows? target 0 source (List.range (target.length + 1)) (List.replicate (target.length + 1) 0)
  row[target.length]?

theorem overwrite?_append_cons (done stale : List Nat) (old value : Nat) :
    overwrite? (done ++ old :: stale) done.length value = some (done ++ value :: stale) := by
  have hin : done.length < (done ++ old :: stale).length := by simp
  rw [overwrite?, if_pos hin, List.set_append_right _ _ (Nat.le_refl _), Nat.sub_self, List.set_cons_zero]

theorem length_distanceCells (c : Char) (left : Nat) (h : above.length = target.length + 1) :
    (distanceCells c left target above).length = target.length := by
  induction target generalizing left above with
  | nil => rfl
  | cons d target ih =>
    obtain ⟨diagonal, above, rfl⟩ := List.exists_cons_of_length_eq_add_one h
    obtain ⟨up, above, rfl⟩ := List.exists_cons_of_length_eq_add_one (Nat.succ.inj h)
    rw [distanceCells, List.length_cons, List.length_cons]
    exact congrArg Nat.succ (ih _ (Nat.succ.inj h))

/-- What the overwritten entries held before does not matter. -/
theorem fillRow?_eq (c : Char) (habove : above.length = target.length + 1)
    (hstale : stale.length = target.length) (hdone : done.length = passed.length) :
    fillRow? c (passed ++ above) passed.length target (done ++ left :: stale) =
      some (done ++ left :: distanceCells c left target above) := by
  induction target generalizing passed done left above stale with
  | nil => rw [fillRow?, List.length_eq_zero_iff.1 hstale]; rfl
  | cons d target ih =>
    obtain ⟨diagonal, above, rfl⟩ := List.exists_cons_of_length_eq_add_one habove
    obtain ⟨up, above, rfl⟩ := List.exists_cons_of_length_eq_add_one (Nat.succ.inj habove)
    obtain ⟨old, stale, rfl⟩ := List.exists_cons_of_length_eq_add_one hstale
    have hup : (passed ++ diagonal :: up :: above)[passed.length + 1]? = some up := by simp
    have hleft : (done ++ left :: old :: stale)[passed.length]? = some left := by simp [← hdone]
    have hdiagonal : (passed ++ diagonal :: up :: above)[passed.length]? = some diagonal := by simp
    have hcell : diagonal + substitutionCost c d = if c = d then diagonal else diagonal + 1 := by
      rw [substitutionCost]
      split <;> rfl
    have hwrite : ∀ cell, overwrite? (done ++ left :: old :: stale) (passed.length + 1) cell =
        some (done ++ left :: cell :: stale) := by
      intro cell
      have happend := overwrite?_append_cons (done ++ [left]) stale old cell
      rw [List.length_append, List.length_singleton, hdone] at happend
      simpa using happend
    have hrest : ∀ cell, fillRow? c ((passed ++ [diagonal]) ++ up :: above) (passed ++ [diagonal]).length target
        ((done ++ [left]) ++ cell :: stale) =
          some ((done ++ [left]) ++ cell :: distanceCells c cell target (up :: above)) :=
      fun cell => ih (Nat.succ.inj habove) (Nat.succ.inj hstale) (by simp [hdone])
    simp only [fillRow?, hup, hleft, hdiagonal, hwrite, Option.bind_eq_bind, Option.bind_some, hcell]
    simpa [distanceCells] using hrest _

/-- A row of distances to all beginnings of the target, of which the first is the number of characters
of the source that have been read. -/
structure IsRow (target : List Char) (count : Nat) (row : List Nat) : Prop where
  length_eq : row.length = target.length + 1
  head?_eq : row.head? = some count

theorem IsRow.next (h : IsRow target count row) (c : Char) :
    IsRow target (count + 1) (nextDistances target row c) := by
  obtain ⟨rest, rfl⟩ := List.head?_eq_some_iff.1 h.head?_eq
  refine ⟨?_, rfl⟩
  rw [nextDistances, List.length_cons, length_distanceCells c _ h.length_eq]

theorem isRow_range (target : List Char) : IsRow target 0 (List.range (target.length + 1)) :=
  ⟨List.length_range, List.head?_range.trans (if_neg (Nat.succ_ne_zero _))⟩

theorem IsRow.foldl (h : IsRow target count row) (source : List Char) :
    IsRow target (count + source.length) (source.foldl (nextDistances target) row) := by
  induction source generalizing count row with
  | nil => exact h
  | cons c source ih =>
    have hrest := ih (h.next c)
    rwa [Nat.add_right_comm] at hrest

theorem fillRows?_eq (h : IsRow target count row) (hspare : spare.length = target.length + 1) :
    fillRows? target count source row spare = some (source.foldl (nextDistances target) row) := by
  induction source generalizing count row spare with
  | nil => rfl
  | cons c source ih =>
    obtain ⟨rest, rfl⟩ := List.head?_eq_some_iff.1 h.head?_eq
    obtain ⟨old, stale, rfl⟩ := List.exists_cons_of_length_eq_add_one hspare
    have hfirst : overwrite? (old :: stale) 0 (count + 1) = some ((count + 1) :: stale) :=
      overwrite?_append_cons [] stale old (count + 1)
    have hfill : fillRow? c ([] ++ count :: rest) 0 target ([] ++ (count + 1) :: stale) =
        some (nextDistances target (count :: rest) c) :=
      fillRow?_eq c h.length_eq (Nat.succ.inj hspare) rfl
    rw [List.nil_append, List.nil_append] at hfill
    simp only [fillRows?, hfirst, hfill, Option.bind_eq_bind, Option.bind_some]
    exact ih (h.next c) h.length_eq

/-- Both rows are long enough throughout, and the two of them give the distance. -/
theorem editDistanceInPlace?_eq (source target : List Char) :
    editDistanceInPlace? source target = some (editDistance source target) := by
  have hfill : fillRows? target 0 source (List.range (target.length + 1)) (List.replicate (target.length + 1) 0) =
      some (source.foldl (nextDistances target) (List.range (target.length + 1))) :=
    fillRows?_eq (isRow_range target) List.length_replicate
  have hlength : (distanceRow source target).length = target.length + 1 :=
    ((isRow_range target).foldl source).length_eq
  have hlast : (distanceRow source target).getLast? = (distanceRow source target)[target.length]? := by
    rw [List.getLast?_eq_getElem?, hlength, Nat.add_sub_cancel]
  have hin : target.length < (distanceRow source target).length := by omega
  rw [editDistanceInPlace?, hfill, Option.bind_eq_bind, Option.bind_some, ← distanceRow, editDistance,
    List.getLastD_eq_getLast?, hlast, List.getElem?_eq_getElem hin, Option.getD_some]

/-! ### Laws of the distance -/

section

variable {s t u : List Char} {m n : Nat}

theorem Edit.symm (h : Edit s t) : Edit t s := by
  cases h with
  | insert before after c => exact .delete before after c
  | delete before after c => exact .insert before after c
  | substitute before after c d => exact .substitute before after d c

namespace EditsTo

theorem trans (h : EditsTo m s t) (h' : EditsTo n t u) : EditsTo (m + n) s u := by
  induction h with
  | refl s => rwa [Nat.zero_add]
  | head hedit _ ih =>
    rw [Nat.succ_add]
    exact .head hedit (ih h')

theorem symm (h : EditsTo n s t) : EditsTo n t s := by
  induction h with
  | refl s => exact .refl s
  | head hedit _ ih => exact ih.trans (.head hedit.symm (.refl _))

theorem zero_iff : EditsTo 0 s t ↔ s = t := by
  constructor
  · intro h
    cases h with
    | refl => rfl
  · rintro rfl
    exact .refl s

theorem editDistance_le (h : EditsTo n s t) : editDistance s t ≤ n := (isLeast_editDistance s t).2 h

end EditsTo

theorem editsTo_editDistance (s t : List Char) : EditsTo (editDistance s t) s t := (isLeast_editDistance s t).1

theorem editDistance_eq_zero_iff : editDistance s t = 0 ↔ s = t := by
  constructor
  · intro hzero
    have hedits := editsTo_editDistance s t
    rw [hzero] at hedits
    exact EditsTo.zero_iff.1 hedits
  · intro hsame
    exact Nat.le_zero.1 (EditsTo.zero_iff.2 hsame).editDistance_le

theorem editDistance_comm (s t : List Char) : editDistance s t = editDistance t s :=
  Nat.le_antisymm (editsTo_editDistance t s).symm.editDistance_le (editsTo_editDistance s t).symm.editDistance_le

theorem editDistance_triangle (s t u : List Char) : editDistance s u ≤ editDistance s t + editDistance t u :=
  ((editsTo_editDistance s t).trans (editsTo_editDistance t u)).editDistance_le

end

/-- The distance that two rows give, with no entry missing, is the least number of insertions, deletions
and substitutions of single characters that turn one text into the other. It is zero for equal texts
only, the same in both directions, and never longer than a way round. -/
theorem edit_distance_least_and_metric (source target : String) :
    editDistanceInPlace? source.toList target.toList = some (editDistance source.toList target.toList) ∧
    IsLeast {n | EditsTo n source.toList target.toList} (editDistance source.toList target.toList) ∧
    (editDistance source.toList target.toList = 0 ↔ source = target) ∧
    editDistance source.toList target.toList = editDistance target.toList source.toList ∧
    ∀ via : String, editDistance source.toList target.toList ≤
      editDistance source.toList via.toList + editDistance via.toList target.toList := by
  refine ⟨editDistanceInPlace?_eq _ _, isLeast_editDistance _ _, ?_, editDistance_comm _ _,
    fun via => editDistance_triangle _ _ _⟩
  rw [← String.toList_inj]
  exact editDistance_eq_zero_iff

end NameResolution
