import Mathlib.Order.Bounds.Basic
import Mathlib.Order.MinMax
import NameResolution.EditDistance

/-! The rows compute the least number of edits. A row holds the distances from a beginning of the source
to the beginnings of the target, and the last character of a beginning is compared first, so that the
recursion behind the rows is on reversed texts. One edit, at whatever place, brings a text at most one
nearer to another, so no sequence of edits is shorter than the distance. -/

namespace NameResolution

variable {s t : List Char} {m n : Nat}

/-! ### Sequences of edits -/

/-- One character is inserted, deleted or substituted, at any place. -/
inductive Edit : List Char → List Char → Prop
  | insert (before after : List Char) (c : Char) : Edit (before ++ after) (before ++ c :: after)
  | delete (before after : List Char) (c : Char) : Edit (before ++ c :: after) (before ++ after)
  | substitute (before after : List Char) (c d : Char) : Edit (before ++ c :: after) (before ++ d :: after)

/-- One text is turned into another by `n` edits, one after the other. -/
inductive EditsTo : Nat → List Char → List Char → Prop
  | refl (s : List Char) : EditsTo 0 s s
  | head {n : Nat} {s t u : List Char} : Edit s t → EditsTo n t u → EditsTo (n + 1) s u

theorem Edit.cons (c : Char) (h : Edit s t) : Edit (c :: s) (c :: t) := by
  cases h with
  | insert before after d => exact .insert (c :: before) after d
  | delete before after d => exact .delete (c :: before) after d
  | substitute before after d e => exact .substitute (c :: before) after d e

theorem Edit.reverse (h : Edit s t) : Edit s.reverse t.reverse := by
  cases h with
  | insert before after c => simpa using Edit.insert after.reverse before.reverse c
  | delete before after c => simpa using Edit.delete after.reverse before.reverse c
  | substitute before after c d => simpa using Edit.substitute after.reverse before.reverse c d

namespace EditsTo

theorem cons (c : Char) (h : EditsTo n s t) : EditsTo n (c :: s) (c :: t) := by
  induction h with
  | refl s => exact .refl (c :: s)
  | head hedit _ ih => exact .head (hedit.cons c) ih

theorem reverse (h : EditsTo n s t) : EditsTo n s.reverse t.reverse := by
  induction h with
  | refl s => exact .refl s.reverse
  | head hedit _ ih => exact .head hedit.reverse ih

theorem reverse_iff : EditsTo n s.reverse t.reverse ↔ EditsTo n s t :=
  ⟨fun h => by simpa using h.reverse, reverse⟩

theorem insert_head (c : Char) (h : EditsTo n s t) : EditsTo (n + 1) s (c :: t) :=
  .head (.insert [] s c) (h.cons c)

theorem delete_head (c : Char) (h : EditsTo n s t) : EditsTo (n + 1) (c :: s) t :=
  .head (.delete [] s c) h

theorem substitute_head (c d : Char) (h : EditsTo n s t) : EditsTo (n + 1) (c :: s) (d :: t) :=
  .head (.substitute [] s c d) (h.cons d)

protected theorem min (hm : EditsTo m s t) (hn : EditsTo n s t) : EditsTo (min m n) s t := by
  rcases min_choice m n with h | h
  · rwa [h]
  · rwa [h]

theorem nil_left : ∀ t : List Char, EditsTo t.length [] t
  | [] => .refl []
  | c :: t => (nil_left t).insert_head c

theorem nil_right : ∀ s : List Char, EditsTo s.length s []
  | [] => .refl []
  | c :: s => (nil_right s).delete_head c

end EditsTo

/-! ### The recursion on two texts -/

/-- What it costs to turn the first character of one text into that of the other: nothing if they agree. -/
def substitutionCost (c d : Char) : Nat := if c = d then 0 else 1

/-- The distance by the first characters: one is deleted, one is inserted, or one stands for the other. -/
def headDistance : List Char → List Char → Nat
  | [], target => target.length
  | source, [] => source.length
  | c :: source, d :: target =>
    min (min (headDistance source (d :: target) + 1) (headDistance (c :: source) target + 1))
      (headDistance source target + substitutionCost c d)

@[simp] theorem headDistance_nil_left (t : List Char) : headDistance [] t = t.length := by
  rw [headDistance]

@[simp] theorem headDistance_nil_right (s : List Char) : headDistance s [] = s.length := by
  cases s <;> simp [headDistance]

theorem headDistance_cons_cons (c d : Char) (s t : List Char) : headDistance (c :: s) (d :: t) =
    min (min (headDistance s (d :: t) + 1) (headDistance (c :: s) t + 1))
      (headDistance s t + substitutionCost c d) := by
  rw [headDistance]

theorem substitutionCost_le_one (c d : Char) : substitutionCost c d ≤ 1 := by
  rw [substitutionCost]
  split <;> omega

theorem headDistance_self (s : List Char) : headDistance s s = 0 := by
  induction s with
  | nil => simp
  | cons c s ih =>
    rw [headDistance_cons_cons, ih, substitutionCost, if_pos rfl]
    simp

/-! ### The distance is attained -/

theorem EditsTo.keep_or_substitute (c d : Char) (h : EditsTo n s t) :
    EditsTo (n + substitutionCost c d) (c :: s) (d :: t) := by
  rw [substitutionCost]
  split
  next hsame => exact hsame ▸ h.cons c
  next => exact h.substitute_head c d

theorem editsTo_headDistance (s t : List Char) : EditsTo (headDistance s t) s t := by
  induction s, t using headDistance.induct with
  | case1 t => exact headDistance_nil_left t ▸ EditsTo.nil_left t
  | case2 s => exact headDistance_nil_right s ▸ EditsTo.nil_right s
  | case3 c s d t hdelete hinsert hkeep =>
    rw [headDistance_cons_cons]
    exact ((hdelete.delete_head c).min (hinsert.insert_head d)).min (hkeep.keep_or_substitute c d)

/-! ### No fewer edits are enough -/

theorem headDistance_le_insert_right (s t : List Char) (d : Char) :
    headDistance s (d :: t) ≤ headDistance s t + 1 := by
  cases s with
  | nil => simp
  | cons c s =>
    rw [headDistance_cons_cons]
    omega

theorem headDistance_le_delete (c : Char) (s u : List Char) :
    headDistance (c :: s) u ≤ headDistance s u + 1 := by
  cases u with
  | nil => simp
  | cons d u =>
    rw [headDistance_cons_cons]
    omega

theorem headDistance_le_insert (c : Char) (s u : List Char) :
    headDistance s u ≤ headDistance (c :: s) u + 1 := by
  induction u with
  | nil =>
    rw [headDistance_nil_right, headDistance_nil_right, List.length_cons]
    omega
  | cons d u ih =>
    -- whichever way `d` comes about from `c :: s`, it can be inserted for `s` alone
    have hinsert := headDistance_le_insert_right s u d
    rw [headDistance_cons_cons]
    omega

theorem headDistance_le_substitute (c d : Char) (s u : List Char) :
    headDistance (c :: s) u ≤ headDistance (d :: s) u + 1 := by
  induction u with
  | nil => simp
  | cons e u ih =>
    have hcost := substitutionCost_le_one c e
    rw [headDistance_cons_cons, headDistance_cons_cons]
    omega

/-- What one change does to the distance is the same behind a common first character. -/
theorem headDistance_le_cons (b : Char) (h : ∀ u, headDistance s u ≤ headDistance t u + 1) (u : List Char) :
    headDistance (b :: s) u ≤ headDistance (b :: t) u + 1 := by
  induction u with
  | nil => simpa using h []
  | cons d u ih =>
    have hrest := h u
    have hdelete := h (d :: u)
    rw [headDistance_cons_cons, headDistance_cons_cons]
    omega

theorem headDistance_le_append (before : List Char) (h : ∀ u, headDistance s u ≤ headDistance t u + 1)
    (u : List Char) : headDistance (before ++ s) u ≤ headDistance (before ++ t) u + 1 := by
  induction before generalizing u with
  | nil => exact h u
  | cons b before ih => exact headDistance_le_cons b ih u

/-- An edit brings a text at most one nearer to any other. -/
theorem Edit.headDistance_le (h : Edit s t) (u : List Char) : headDistance s u ≤ headDistance t u + 1 := by
  cases h with
  | insert before after c => exact headDistance_le_append before (headDistance_le_insert c after) u
  | delete before after c => exact headDistance_le_append before (headDistance_le_delete c after) u
  | substitute before after c d => exact headDistance_le_append before (headDistance_le_substitute c d after) u

theorem EditsTo.headDistance_le (h : EditsTo n s t) : headDistance s t ≤ n := by
  induction h with
  | refl s => exact (headDistance_self s).le
  | @head n s t u hedit _ ih =>
    have hnearer := hedit.headDistance_le u
    omega

theorem isLeast_headDistance (s t : List Char) : IsLeast {n | EditsTo n s t} (headDistance s t) :=
  ⟨editsTo_headDistance s t, fun _ h => h.headDistance_le⟩

/-! ### The rows of the computation -/

/-- The distances from `s` to `t` and to what `t` becomes as it takes up the characters of a target. -/
def rowFrom (s : List Char) : List Char → List Char → List Nat
  | t, [] => [headDistance s t]
  | t, d :: target => headDistance s t :: rowFrom s (d :: t) target

theorem rowFrom_eq_cons (s t target : List Char) : ∃ rest, rowFrom s t target = headDistance s t :: rest := by
  cases target <;> exact ⟨_, rfl⟩

theorem rowFrom_nil (t target : List Char) :
    rowFrom [] t target = List.range' t.length (target.length + 1) := by
  induction target generalizing t with
  | nil => simp [rowFrom]
  | cons d target ih =>
    rw [rowFrom, ih, headDistance_nil_left, List.length_cons, List.length_cons]
    exact List.range'_succ.symm

/-- Each cell is found from the one before it and the two above. -/
theorem headDistance_cons_rowFrom (c : Char) (s t target : List Char) :
    headDistance (c :: s) t :: distanceCells c (headDistance (c :: s) t) target (rowFrom s t target) =
      rowFrom (c :: s) t target := by
  induction target generalizing t with
  | nil => rfl
  | cons d target ih =>
    obtain ⟨above, habove⟩ := rowFrom_eq_cons s (d :: t) target
    have hcell : min (min (headDistance s (d :: t) + 1) (headDistance (c :: s) t + 1))
        (if c = d then headDistance s t else headDistance s t + 1) = headDistance (c :: s) (d :: t) := by
      rw [headDistance_cons_cons, substitutionCost]
      split <;> rfl
    rw [rowFrom, rowFrom, ← ih, habove, distanceCells, hcell]

theorem nextDistances_rowFrom (c : Char) (s target : List Char) :
    nextDistances target (rowFrom s [] target) c = rowFrom (c :: s) [] target := by
  obtain ⟨rest, hrow⟩ := rowFrom_eq_cons s [] target
  have hfirst : headDistance s [] + 1 = headDistance (c :: s) [] := by simp
  rw [← headDistance_cons_rowFrom, hrow, nextDistances, hfirst]

theorem foldl_nextDistances (s source target : List Char) :
    source.foldl (nextDistances target) (rowFrom s [] target) = rowFrom (source.reverse ++ s) [] target := by
  induction source generalizing s with
  | nil => rfl
  | cons c source ih =>
    rw [List.foldl_cons, nextDistances_rowFrom, ih, List.reverse_cons, List.append_assoc]
    rfl

theorem distanceRow_eq (source target : List Char) :
    distanceRow source target = rowFrom source.reverse [] target := by
  have hfirst : List.range (target.length + 1) = rowFrom [] [] target := by
    rw [rowFrom_nil, List.range_eq_range']
    rfl
  rw [distanceRow, hfirst, foldl_nextDistances, List.append_nil]

theorem getLastD_rowFrom (s t target : List Char) (a : Nat) :
    (rowFrom s t target).getLastD a = headDistance s (target.reverse ++ t) := by
  induction target generalizing t a with
  | nil => rfl
  | cons d target ih =>
    rw [rowFrom, List.getLastD_cons, ih, List.reverse_cons, List.append_assoc]
    rfl

theorem editDistance_eq (source target : List Char) :
    editDistance source target = headDistance source.reverse target.reverse := by
  rw [editDistance, distanceRow_eq, getLastD_rowFrom, List.append_nil]

/-- The computed distance is the least number of insertions, deletions and substitutions of single
characters that turn the source into the target. -/
theorem isLeast_editDistance (source target : List Char) :
    IsLeast {n | EditsTo n source target} (editDistance source target) := by
  have h := isLeast_headDistance source.reverse target.reverse
  simp only [EditsTo.reverse_iff] at h
  rwa [editDistance_eq]

end NameResolution
