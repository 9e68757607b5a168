import SceneDiagram.Failure

/-!
# Cancellation

Whoever starts a pass may ask it to stop, by any copy of the token that the
pass was given.
-/

namespace SceneDiagram

/-- A token, and all its copies, by the number of its signal. -/
structure CancelToken where
  signal : Nat
  deriving DecidableEq, Repr

structure Signals where
  raised : List Bool := []
  deriving DecidableEq, Repr

namespace Signals

def issue (s : Signals) : CancelToken × Signals := (⟨s.raised.length⟩, ⟨s.raised ++ [false]⟩)

def cancel (s : Signals) (t : CancelToken) : Signals := ⟨s.raised.set t.signal true⟩

def isCancelled (s : Signals) (t : CancelToken) : Bool := s.raised[t.signal]?.getD false

def check (s : Signals) (t : CancelToken) : Except Failure Unit :=
  if s.isCancelled t then .error .cancelled else .ok ()

end Signals

end SceneDiagram
