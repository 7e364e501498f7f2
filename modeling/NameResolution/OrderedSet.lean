/-! Sets that remember the order in which their elements came. The elements are a
list without repetitions, and inserting an element that is present changes nothing. -/

namespace NameResolution

structure OrderedSet (α : Type) where
  toList : List α
  nodup : toList.Nodup
  deriving DecidableEq

namespace OrderedSet

variable {α : Type}

@[ext] theorem ext {s t : OrderedSet α} (h : s.toList = t.toList) : s = t := by
  cases s; cases t; simp_all

def empty : OrderedSet α := ⟨[], List.nodup_nil⟩

instance : EmptyCollection (OrderedSet α) := ⟨empty⟩

instance : Inhabited (OrderedSet α) := ⟨empty⟩

instance : Membership α (OrderedSet α) := ⟨fun s a => a ∈ s.toList⟩

theorem mem_def {s : OrderedSet α} {a : α} : a ∈ s ↔ a ∈ s.toList := Iff.rfl

@[simp] theorem toList_empty : (∅ : OrderedSet α).toList = [] := rfl

def size (s : OrderedSet α) : Nat := s.toList.length

def isEmpty (s : OrderedSet α) : Bool := s.toList.isEmpty

variable [DecidableEq α]

instance (a : α) (s : OrderedSet α) : Decidable (a ∈ s) :=
  inferInstanceAs (Decidable (a ∈ s.toList))

/-- A new element comes after all others. -/
def insert (s : OrderedSet α) (a : α) : OrderedSet α :=
  if h : a ∈ s then s
  else ⟨s.toList ++ [a], by
    rw [List.nodup_append]
    exact ⟨s.nodup, List.pairwise_singleton _ _, fun x hx y hy => by
      rw [List.mem_singleton.1 hy]
      exact fun e => h (e ▸ hx)⟩⟩

/-- Inserts the elements from left to right. -/
def insertAll (s : OrderedSet α) (xs : List α) : OrderedSet α := xs.foldl insert s

def ofList (xs : List α) : OrderedSet α := insertAll ∅ xs

/-- Removes the element that came last. -/
def dropLast (s : OrderedSet α) : OrderedSet α :=
  ⟨s.toList.dropLast, s.nodup.sublist (List.dropLast_sublist _)⟩

/-- Both sets have the same elements, in whatever order they came. -/
def sameElements (s t : OrderedSet α) : Bool :=
  s.toList.all (fun a => decide (a ∈ t)) && t.toList.all (fun a => decide (a ∈ s))

theorem insert_of_mem {s : OrderedSet α} {a : α} (h : a ∈ s) : s.insert a = s := by
  simp [insert, h]

theorem toList_insert_of_not_mem {s : OrderedSet α} {a : α} (h : a ∉ s) :
    (s.insert a).toList = s.toList ++ [a] := by
  simp [insert, h]

@[simp] theorem mem_insert {s : OrderedSet α} {a b : α} : b ∈ s.insert a ↔ b ∈ s ∨ b = a := by
  by_cases h : a ∈ s
  · rw [insert_of_mem h]
    exact ⟨Or.inl, fun hb => hb.elim id (fun e => e ▸ h)⟩
  · simp [mem_def, toList_insert_of_not_mem h]

@[simp] theorem mem_insertAll {s : OrderedSet α} {xs : List α} {b : α} :
    b ∈ s.insertAll xs ↔ b ∈ s ∨ b ∈ xs := by
  induction xs generalizing s with
  | nil => simp [insertAll]
  | cons a xs ih =>
    rw [insertAll, List.foldl_cons, ← insertAll, ih, mem_insert, List.mem_cons, or_assoc]

@[simp] theorem mem_ofList {xs : List α} {b : α} : b ∈ ofList xs ↔ b ∈ xs := by
  rw [ofList, mem_insertAll]
  exact or_iff_right List.not_mem_nil

theorem dropLast_insert_of_not_mem {s : OrderedSet α} {a : α} (h : a ∉ s) :
    (s.insert a).dropLast = s := by
  apply ext
  simp [dropLast, toList_insert_of_not_mem h]

end OrderedSet

end NameResolution
