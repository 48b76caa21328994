namespace LoopPragma

-- The lines from `start` up to, and without, `stop`.
structure LineSpan where
  start : UInt32
  stop : UInt32
deriving DecidableEq

namespace LineSpan

def contains (outer inner : LineSpan) : Bool :=
  outer.start ≤ inner.start && inner.stop ≤ outer.stop

def text (s : LineSpan) : String := toString s.start.toNat ++ ".." ++ toString s.stop.toNat

end LineSpan

end LoopPragma
