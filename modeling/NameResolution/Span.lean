/-! Ranges of offsets in numbered files. An offset at either end of a range counts as
inside it, and a range read from stored data may end before it starts. -/

namespace NameResolution

structure FileId where
  number : Nat
  deriving DecidableEq, Inhabited

structure Span where
  start : Nat
  stop : Nat
  deriving DecidableEq, Inhabited

/-- The ends of a range given in the wrong order. -/
structure ReversedSpan where
  start : Nat
  stop : Nat

def ReversedSpan.message (ends : ReversedSpan) : String :=
  s!"span end {ends.stop} precedes start {ends.start}"

namespace Span

/-- The range between two ends, which must be in order. -/
def between (start stop : Nat) : Except ReversedSpan Span :=
  if start ≤ stop then .ok ⟨start, stop⟩ else .error ⟨start, stop⟩

/-- Only asked of a range whose ends are in order, as they are where it holds an offset. -/
def length (s : Span) : Nat := s.stop - s.start

def isEmpty (s : Span) : Bool := s.start == s.stop

def containsOffset (s : Span) (offset : Nat) : Bool :=
  decide (s.start ≤ offset) && decide (offset ≤ s.stop)

def contains (s other : Span) : Bool :=
  decide (s.start ≤ other.start) && decide (other.stop ≤ s.stop)

instance : ToString Span where
  toString s := s!"{s.start}..{s.stop}"

theorem start_le_stop_of_containsOffset {s : Span} {offset : Nat}
    (h : s.containsOffset offset = true) : s.start ≤ s.stop := by
  simp only [containsOffset, Bool.and_eq_true, decide_eq_true_eq] at h
  omega

end Span

/-- A range within one file. -/
structure FileSpan where
  file : FileId
  span : Span
  deriving DecidableEq, Inhabited

namespace FileSpan

def containsPosition (s : FileSpan) (file : FileId) (offset : Nat) : Bool :=
  s.file == file && s.span.containsOffset offset

instance : ToString FileSpan where
  toString s := s!"file#{s.file.number}@{s.span}"

end FileSpan

end NameResolution
