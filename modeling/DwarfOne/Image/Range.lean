/-
# `Image.Range` — a stretch of offsets or addresses

Both are 32 bits wide, and the end of a stretch near the top of that space
wraps around to its bottom.
-/
namespace DwarfOne

structure Range where
  start : UInt32
  size : UInt32
  deriving DecidableEq, Repr

namespace Range

/-- One past the last place. -/
def stop (r : Range) : UInt32 :=
  r.start + r.size

def contains (r : Range) (place : UInt32) : Bool :=
  r.start ≤ place && place < r.stop

end Range

end DwarfOne
