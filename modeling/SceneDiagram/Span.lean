/-!
# Spans

A span is a range of bytes of a source text.
-/

namespace SceneDiagram

/-- The bytes from `start` up to, and without, `stop`. -/
structure Span where
  start : Nat
  stop : Nat
  deriving DecidableEq, Repr, Inhabited

namespace Span

/-- The span between two offsets; one that would end before it starts is empty. -/
def between (start stop : Nat) : Span := ⟨start, max stop start⟩

def length (s : Span) : Nat := s.stop - s.start

def isEmpty (s : Span) : Bool := s.start == s.stop

def union (s t : Span) : Span := ⟨min s.start t.start, max s.stop t.stop⟩

end Span

structure Spanned (α : Type) where
  value : α
  span : Span
  deriving DecidableEq, Repr

end SceneDiagram
