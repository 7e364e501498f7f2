import NameResolution.Symbol.Basic

/-! What kind of symbol a reference asks for. A set of options is written as a number
of 32 bits, of which the eight lowest have a meaning. -/

namespace NameResolution

inductive LookupFlag where
  | namespacesOrTypesOnly
  | namespaceAliasesOnly
  | mustBeInvocableIfMember
  | mustBeInstance
  | mustNotBeInstance
  | labelsOnly
  | exactArity
  | mustNotBeMethodTypeParameter
  deriving DecidableEq

namespace LookupFlag

/-- All flags in the order of their bits. -/
def all : List LookupFlag :=
  [namespacesOrTypesOnly, namespaceAliasesOnly, mustBeInvocableIfMember, mustBeInstance,
    mustNotBeInstance, labelsOnly, exactArity, mustNotBeMethodTypeParameter]

def name : LookupFlag → String
  | namespacesOrTypesOnly => "NAMESPACES_OR_TYPES_ONLY"
  | namespaceAliasesOnly => "NAMESPACE_ALIASES_ONLY"
  | mustBeInvocableIfMember => "MUST_BE_INVOCABLE_IF_MEMBER"
  | mustBeInstance => "MUST_BE_INSTANCE"
  | mustNotBeInstance => "MUST_NOT_BE_INSTANCE"
  | labelsOnly => "LABELS_ONLY"
  | exactArity => "EXACT_ARITY"
  | mustNotBeMethodTypeParameter => "MUST_NOT_BE_METHOD_TYPE_PARAMETER"

def ofName? (text : String) : Option LookupFlag := all.find? fun flag => flag.name == text

end LookupFlag

/-- A set of flags together with the bits that have no meaning, which are kept. -/
structure LookupOptions where
  namespacesOrTypesOnly : Bool := false
  namespaceAliasesOnly : Bool := false
  mustBeInvocableIfMember : Bool := false
  mustBeInstance : Bool := false
  mustNotBeInstance : Bool := false
  labelsOnly : Bool := false
  exactArity : Bool := false
  mustNotBeMethodTypeParameter : Bool := false
  /-- The bits from the ninth on, as a number. -/
  unassigned : Nat := 0
  deriving DecidableEq, Inhabited

namespace LookupOptions

def empty : LookupOptions := {}

def has (o : LookupOptions) : LookupFlag → Bool
  | .namespacesOrTypesOnly => o.namespacesOrTypesOnly
  | .namespaceAliasesOnly => o.namespaceAliasesOnly
  | .mustBeInvocableIfMember => o.mustBeInvocableIfMember
  | .mustBeInstance => o.mustBeInstance
  | .mustNotBeInstance => o.mustNotBeInstance
  | .labelsOnly => o.labelsOnly
  | .exactArity => o.exactArity
  | .mustNotBeMethodTypeParameter => o.mustNotBeMethodTypeParameter

def set (o : LookupOptions) : LookupFlag → LookupOptions
  | .namespacesOrTypesOnly => { o with namespacesOrTypesOnly := true }
  | .namespaceAliasesOnly => { o with namespaceAliasesOnly := true }
  | .mustBeInvocableIfMember => { o with mustBeInvocableIfMember := true }
  | .mustBeInstance => { o with mustBeInstance := true }
  | .mustNotBeInstance => { o with mustNotBeInstance := true }
  | .labelsOnly => { o with labelsOnly := true }
  | .exactArity => { o with exactArity := true }
  | .mustNotBeMethodTypeParameter => { o with mustNotBeMethodTypeParameter := true }

def flags (o : LookupOptions) : List LookupFlag := LookupFlag.all.filter o.has

/-- Bit `i` of the number stands for the flag at place `i` of the list of all flags. -/
def ofBits (bits : Nat) : LookupOptions where
  namespacesOrTypesOnly := bits.testBit 0
  namespaceAliasesOnly := bits.testBit 1
  mustBeInvocableIfMember := bits.testBit 2
  mustBeInstance := bits.testBit 3
  mustNotBeInstance := bits.testBit 4
  labelsOnly := bits.testBit 5
  exactArity := bits.testBit 6
  mustNotBeMethodTypeParameter := bits.testBit 7
  unassigned := bits / 256

def bits (o : LookupOptions) : Nat :=
  o.namespacesOrTypesOnly.toNat + 2 * o.namespaceAliasesOnly.toNat
    + 4 * o.mustBeInvocableIfMember.toNat + 8 * o.mustBeInstance.toNat
    + 16 * o.mustNotBeInstance.toNat + 32 * o.labelsOnly.toNat + 64 * o.exactArity.toNat
    + 128 * o.mustNotBeMethodTypeParameter.toNat + 256 * o.unassigned

@[simp] theorem bits_ofBits (n : Nat) : (ofBits n).bits = n := by
  have h (i : Nat) : (n.testBit i).toNat = n / 2 ^ i % 2 := Nat.toNat_testBit n i
  simp only [bits, ofBits, h]
  omega

@[simp] theorem ofBits_bits (o : LookupOptions) : ofBits o.bits = o := by
  have hle (b : Bool) : b.toNat ≤ 1 := b.toNat_le
  have hbit (b : Bool) (n i : Nat) (h : n / 2 ^ i % 2 = b.toNat) : n.testBit i = b := by
    rw [Nat.testBit_eq_decide_div_mod_eq, h]
    cases b <;> rfl
  obtain ⟨b₀, b₁, b₂, b₃, b₄, b₅, b₆, b₇, rest⟩ := o
  have h₀ := hle b₀
  have h₁ := hle b₁
  have h₂ := hle b₂
  have h₃ := hle b₃
  have h₄ := hle b₄
  have h₅ := hle b₅
  have h₆ := hle b₆
  have h₇ := hle b₇
  simp only [ofBits, mk.injEq]
  refine ⟨hbit _ _ _ ?_, hbit _ _ _ ?_, hbit _ _ _ ?_, hbit _ _ _ ?_, hbit _ _ _ ?_, hbit _ _ _ ?_,
    hbit _ _ _ ?_, hbit _ _ _ ?_, ?_⟩ <;> simp only [bits] <;> omega

/-- No symbol is at once an instance member and none, a search for labels asks for
nothing else, and an alias is neither a member nor invocable. -/
def isValid (o : LookupOptions) : Bool :=
  !(o.mustBeInstance && o.mustNotBeInstance)
    && (!o.labelsOnly || o == { labelsOnly := true })
    && (!o.namespaceAliasesOnly
      || !(o.mustBeInstance || o.mustNotBeInstance || o.mustBeInvocableIfMember))

/-- The names of the flags, then the bits without a meaning as one hexadecimal number. -/
def describe (o : LookupOptions) : String :=
  let rest := if o.unassigned = 0 then [] else ["0x" ++ String.ofList (Nat.toDigits 16 (256 * o.unassigned))]
  "LookupOptions(" ++ " | ".intercalate (o.flags.map LookupFlag.name ++ rest) ++ ")"

/-- Every bit of the first set is in the second. -/
def Subset (o p : LookupOptions) : Prop :=
  (∀ flag, o.has flag = true → p.has flag = true) ∧ o.unassigned ||| p.unassigned = p.unassigned

instance : HasSubset LookupOptions := ⟨Subset⟩

end LookupOptions

end NameResolution
