import NameResolution.Lookup.Error

/-! Flags with which a caller calls a lookup off. Copies of a handle share one flag, and
a flag that is raised stays raised. -/

namespace NameResolution

/-- A handle on a flag. -/
structure CancellationFlag where
  index : Nat
  deriving DecidableEq, Inhabited

/-- The flags handed out so far, each of them raised or not. -/
structure CancellationFlags where
  raised : Array Bool := #[]
  deriving Inhabited

namespace CancellationFlags

def fresh (flags : CancellationFlags) : CancellationFlag × CancellationFlags :=
  (⟨flags.raised.size⟩, ⟨flags.raised.push false⟩)

def raise (flags : CancellationFlags) (flag : CancellationFlag) : CancellationFlags :=
  ⟨flags.raised.modify flag.index fun _ => true⟩

def isRaised (flags : CancellationFlags) (flag : CancellationFlag) : Bool :=
  flags.raised[flag.index]?.getD false

/-- Passes as long as the flag is not raised. -/
def check (flags : CancellationFlags) (flag : CancellationFlag) : Except ResolutionError Unit :=
  if flags.isRaised flag then .error .cancelled else .ok ()

end CancellationFlags

end NameResolution
