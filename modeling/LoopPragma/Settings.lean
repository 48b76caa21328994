import LoopPragma.Directive

namespace LoopPragma

structure Settings where
  emitParallel : Bool := false
  family : Family := .acc
  -- A divergent loop does not count as parallel.
  discardDivergent : Bool := false
  coalesce : Bool := false
deriving DecidableEq

end LoopPragma
