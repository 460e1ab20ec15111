import Mathlib.Data.Bool.Basic

/-!
# Event/Epoll — event masks

The `int` masks of `epoll`, read bit by bit: a mask is the set of the eight bits the server tests or
sets.
-/

namespace WebServer.Event

/-- An event mask. -/
structure EventMask where
  epollIn : Bool := false
  epollPri : Bool := false
  epollOut : Bool := false
  epollErr : Bool := false
  epollHup : Bool := false
  epollRdHup : Bool := false
  epollOneShot : Bool := false
  epollEt : Bool := false
  deriving DecidableEq, Repr

namespace EventMask

/-- The mask `0`. -/
abbrev zero : EventMask := {}
/-- `EPOLLIN` -/
abbrev EPOLLIN : EventMask := { epollIn := true }
/-- `EPOLLOUT` -/
abbrev EPOLLOUT : EventMask := { epollOut := true }
/-- `EPOLLET` -/
abbrev EPOLLET : EventMask := { epollEt := true }
/-- `EPOLLONESHOT` -/
abbrev EPOLLONESHOT : EventMask := { epollOneShot := true }

/-- The bitwise or of two masks. -/
def or (a b : EventMask) : EventMask where
  epollIn := a.epollIn || b.epollIn
  epollPri := a.epollPri || b.epollPri
  epollOut := a.epollOut || b.epollOut
  epollErr := a.epollErr || b.epollErr
  epollHup := a.epollHup || b.epollHup
  epollRdHup := a.epollRdHup || b.epollRdHup
  epollOneShot := a.epollOneShot || b.epollOneShot
  epollEt := a.epollEt || b.epollEt

instance : OrOp EventMask := ⟨or⟩

@[simp] theorem or_epollIn (a b : EventMask) : (a ||| b).epollIn = (a.epollIn || b.epollIn) := rfl

@[simp] theorem or_epollOut (a b : EventMask) : (a ||| b).epollOut = (a.epollOut || b.epollOut) :=
  rfl

@[simp] theorem or_epollOneShot (a b : EventMask) :
    (a ||| b).epollOneShot = (a.epollOneShot || b.epollOneShot) := rfl

/-- A mask with a bit set is not `0`. -/
theorem ne_zero_of_epollOut {a : EventMask} (h : a.epollOut = true) : a ≠ zero := by
  rintro rfl
  exact Bool.noConfusion h

end EventMask

end WebServer.Event
