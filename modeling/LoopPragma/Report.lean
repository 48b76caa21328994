import LoopPragma.Counts
import LoopPragma.LineList
import LoopPragma.Routines

namespace LoopPragma

structure Report where
  -- Functions with at least one directive, in the order of the program.
  functions : List (String × Annotations) := []
  external : Annotations := ∅
  routines : Routines := ∅
  counts : Counts := {}

namespace Report

def merged (r : Report) : Annotations :=
  r.functions.foldl (fun a entry => a.merge entry.2) r.external

def ofLineList (text : String) (family : Family) : Report :=
  { external := LineList.annotations text family }

end Report

end LoopPragma
