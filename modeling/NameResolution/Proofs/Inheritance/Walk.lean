import Mathlib.Logic.Relation
import NameResolution.Symbol.Inheritance

/-! The depth-first walk along base types. It visits each type at most once, it can be
cut into the walks of its starting types one after the other, and the types it visits are
those that a path of followed base types leads to without entering a type seen before. -/

namespace NameResolution.SymbolTable

variable {t : SymbolTable} {follows : SymbolId → Bool}

/-- The base types to which a walk goes on from a type. -/
def followed (t : SymbolTable) (follows : SymbolId → Bool) (ty : SymbolId) : List SymbolId :=
  if follows ty then t.bases ty else []

@[simp] theorem walkBases_nil (seen : List SymbolId) : t.walkBases follows [] seen = [] := by
  rw [walkBases]

theorem walkBases_cons_of_mem {ty : SymbolId} {seen : List SymbolId} (h : ty ∈ seen)
    (rest : List SymbolId) :
    t.walkBases follows (ty :: rest) seen = t.walkBases follows rest seen := by
  rw [walkBases, if_pos h]

theorem walkBases_cons_of_not_mem {ty : SymbolId} {seen : List SymbolId} (h : ty ∉ seen)
    (rest : List SymbolId) : t.walkBases follows (ty :: rest) seen =
      ty :: t.walkBases follows (t.followed follows ty ++ rest) (ty :: seen) := by
  rw [walkBases, if_neg h]
  rfl

/-- A type that comes up is either passed over or entered. -/
@[elab_as_elim] theorem walkBases_induction (t : SymbolTable) (follows : SymbolId → Bool)
    {motive : List SymbolId → List SymbolId → Prop} (done : ∀ seen, motive [] seen)
    (pass : ∀ ty rest seen, ty ∈ seen → motive rest seen → motive (ty :: rest) seen)
    (enter : ∀ ty rest seen, ty ∉ seen → motive (t.followed follows ty ++ rest) (ty :: seen) →
      motive (ty :: rest) seen) (pending seen : List SymbolId) : motive pending seen := by
  induction pending, seen using walkBases.induct t follows with
  | case1 seen => exact done seen
  | case2 seen ty rest hmem ih => exact pass ty rest seen hmem ih
  | case3 seen ty rest hnew ih => exact enter ty rest seen hnew ih

/-- Only which types have been seen matters, not in which order. -/
theorem walkBases_congr {pending seen seen' : List SymbolId} (h : ∀ x, x ∈ seen ↔ x ∈ seen') :
    t.walkBases follows pending seen = t.walkBases follows pending seen' := by
  induction pending, seen using walkBases_induction t follows generalizing seen' with
  | done seen => simp
  | pass ty rest seen hmem ih =>
    rw [walkBases_cons_of_mem hmem, walkBases_cons_of_mem ((h ty).1 hmem)]
    exact ih h
  | enter ty rest seen hnew ih =>
    rw [walkBases_cons_of_not_mem hnew, walkBases_cons_of_not_mem fun hc => hnew ((h ty).2 hc)]
    congr 1
    apply ih
    intro x
    rw [List.mem_cons, List.mem_cons, h x]

/-- What is pending first is finished before the rest begins. -/
theorem walkBases_append (xs ys seen : List SymbolId) : t.walkBases follows (xs ++ ys) seen =
    t.walkBases follows xs seen ++ t.walkBases follows ys (seen ++ t.walkBases follows xs seen) := by
  induction xs, seen using walkBases_induction t follows with
  | done seen => simp
  | pass ty rest seen hmem ih =>
    rw [List.cons_append, walkBases_cons_of_mem hmem, walkBases_cons_of_mem hmem, ih]
  | enter ty rest seen hnew ih =>
    rw [List.cons_append, walkBases_cons_of_not_mem hnew, walkBases_cons_of_not_mem hnew,
      ← List.append_assoc, ih, List.cons_append]
    congr 2
    apply walkBases_congr
    intro x
    simp only [List.mem_append, List.mem_cons]
    exact or_left_comm

theorem not_mem_seen_of_mem_walkBases {pending seen : List SymbolId} {x : SymbolId}
    (h : x ∈ t.walkBases follows pending seen) : x ∉ seen := by
  induction pending, seen using walkBases_induction t follows with
  | done seen => simp at h
  | pass ty rest seen hmem ih =>
    rw [walkBases_cons_of_mem hmem] at h
    exact ih h
  | enter ty rest seen hnew ih =>
    rw [walkBases_cons_of_not_mem hnew] at h
    rcases List.mem_cons.1 h with rfl | h
    · exact hnew
    · exact fun hc => ih h (List.mem_cons_of_mem ty hc)

/-- Each type is visited once. -/
theorem nodup_walkBases (t : SymbolTable) (follows : SymbolId → Bool) (pending seen : List SymbolId) :
    (t.walkBases follows pending seen).Nodup := by
  induction pending, seen using walkBases_induction t follows with
  | done seen => simp
  | pass ty rest seen hmem ih =>
    rw [walkBases_cons_of_mem hmem]
    exact ih
  | enter ty rest seen hnew ih =>
    rw [walkBases_cons_of_not_mem hnew, List.nodup_cons]
    exact ⟨fun hc => not_mem_seen_of_mem_walkBases hc List.mem_cons_self, ih⟩

/-! ### Which types are visited -/

theorem mem_walkBases_of_mem_pending {pending seen : List SymbolId} {x : SymbolId} (h : x ∈ pending) :
    x ∈ seen ∨ x ∈ t.walkBases follows pending seen := by
  induction pending, seen using walkBases_induction t follows with
  | done seen => cases h
  | pass ty rest seen hmem ih =>
    rw [walkBases_cons_of_mem hmem]
    rcases List.mem_cons.1 h with rfl | h
    · exact Or.inl hmem
    · exact ih h
  | enter ty rest seen hnew ih =>
    rw [walkBases_cons_of_not_mem hnew]
    rcases List.mem_cons.1 h with rfl | h
    · exact Or.inr List.mem_cons_self
    · rcases ih (List.mem_append_right _ h) with hs | hw
      · rcases List.mem_cons.1 hs with rfl | hs
        · exact Or.inr List.mem_cons_self
        · exact Or.inl hs
      · exact Or.inr (List.mem_cons_of_mem ty hw)

/-- The walk leaves no base type of a visited type behind. -/
theorem mem_walkBases_of_mem_followed {pending seen : List SymbolId} {x b : SymbolId}
    (hx : x ∈ t.walkBases follows pending seen) (hb : b ∈ t.followed follows x) :
    b ∈ seen ∨ b ∈ t.walkBases follows pending seen := by
  induction pending, seen using walkBases_induction t follows with
  | done seen => simp at hx
  | pass ty rest seen hmem ih =>
    rw [walkBases_cons_of_mem hmem] at hx ⊢
    exact ih hx
  | enter ty rest seen hnew ih =>
    rw [walkBases_cons_of_not_mem hnew] at hx ⊢
    have hnext : b ∈ ty :: seen ∨ b ∈ t.walkBases follows (t.followed follows ty ++ rest) (ty :: seen) := by
      rcases List.mem_cons.1 hx with rfl | hx
      · exact mem_walkBases_of_mem_pending (List.mem_append_left _ hb)
      · exact ih hx
    rcases hnext with hs | hw
    · rcases List.mem_cons.1 hs with rfl | hs
      · exact Or.inr List.mem_cons_self
      · exact Or.inl hs
    · exact Or.inr (List.mem_cons_of_mem ty hw)

/-- One step of a walk that never enters certain types. -/
def StepsTo (t : SymbolTable) (follows : SymbolId → Bool) (avoid : List SymbolId) (x b : SymbolId) : Prop :=
  b ∈ t.followed follows x ∧ b ∉ avoid

theorem stepsTo_nil : t.StepsTo follows [] = fun a b => b ∈ t.followed follows a := by
  funext a b
  simp [StepsTo]

/-- The visited types are those that a path leads to. -/
theorem mem_walkBases_iff {pending seen : List SymbolId} {x : SymbolId} :
    x ∈ t.walkBases follows pending seen ↔
      ∃ p ∈ pending, p ∉ seen ∧ Relation.ReflTransGen (t.StepsTo follows seen) p x := by
  constructor
  · intro h
    induction pending, seen using walkBases_induction t follows with
    | done seen => simp at h
    | pass ty rest seen hmem ih =>
      rw [walkBases_cons_of_mem hmem] at h
      obtain ⟨p, hp, hpath⟩ := ih h
      exact ⟨p, List.mem_cons_of_mem ty hp, hpath⟩
    | enter ty rest seen hnew ih =>
      rw [walkBases_cons_of_not_mem hnew] at h
      rcases List.mem_cons.1 h with rfl | h
      · exact ⟨x, List.mem_cons_self, hnew, .refl⟩
      · obtain ⟨p, hp, hps, hpath⟩ := ih h
        have hsp : p ∉ seen := fun hc => hps (List.mem_cons_of_mem ty hc)
        have hpath' : Relation.ReflTransGen (t.StepsTo follows seen) p x :=
          hpath.lift id fun a b hab => ⟨hab.1, fun hc => hab.2 (List.mem_cons_of_mem ty hc)⟩
        rcases List.mem_append.1 hp with hp | hp
        · exact ⟨ty, List.mem_cons_self, hnew, .head ⟨hp, hsp⟩ hpath'⟩
        · exact ⟨p, List.mem_cons_of_mem ty hp, hsp, hpath'⟩
  · rintro ⟨p, hp, hps, hpath⟩
    induction hpath with
    | refl => exact (mem_walkBases_of_mem_pending hp).resolve_left hps
    | tail _ hstep ih => exact (mem_walkBases_of_mem_followed ih hstep.1).resolve_left hstep.2

/-- One type derives from another if some path of at least one step leads to it. -/
theorem derivesFrom_iff {ty base : SymbolId} :
    t.derivesFrom ty base = true ↔ Relation.TransGen (fun a b => b ∈ t.bases a) ty base := by
  have hfollowed : ∀ a, t.followed (fun _ => true) a = t.bases a := fun a => if_pos rfl
  rw [derivesFrom, List.contains_iff_mem, mem_walkBases_iff, stepsTo_nil, Relation.TransGen.head'_iff]
  simp [hfollowed]

end NameResolution.SymbolTable
