import LoopPragma.Annotations.Basic
import LoopPragma.Directive
import LoopPragma.Text.Decimal

namespace LoopPragma.LineList

-- The line that a record names. Zero, and whatever is no number, names none.
def recordLine? (record : List Char) : Option UInt32 := do
  let n ← Decimal.readSigned? (Text.trim record)
  let line ← Decimal.toWord? n
  if line = 0 then none else some line

def parallelLines (text : String) : List UInt32 :=
  (Text.lines text.toList).filterMap recordLine?

-- The directive of a loop without a guard at each line of the list.
def annotations (text : String) (family : Family) : Annotations :=
  (parallelLines text).foldl (fun a line => a.add line (family.loopDirective "")) ∅

end LoopPragma.LineList
