import LoopPragma.Document.Stored
import LoopPragma.Report

namespace LoopPragma

instance : Stored Annotations where
  toJson a := toJson a.texts
  ofJson? j := (ofJson? j).map .mk

instance : Stored Family where
  toJson family := .string family.name
  ofJson? j := (tag? j).bind Family.ofName?

instance : Stored Counts where
  toJson c := .object [("loops", toJson c.loops), ("analyzable_loops", toJson c.analyzableLoops),
    ("annotated_loops", toJson c.annotatedLoops), ("safe_loop_calls", toJson c.safeLoopCalls)]
  ofJson? j := do
    let field ← record? ["loops", "analyzable_loops", "annotated_loops", "safe_loop_calls"] j
    return { loops := ← required? (field "loops")
             analyzableLoops := ← required? (field "analyzable_loops")
             annotatedLoops := ← required? (field "annotated_loops")
             safeLoopCalls := ← required? (field "safe_loop_calls") }

-- Lines from a line list are mentioned only if there are any.
def Report.toJson (r : Report) : Json :=
  let functions := r.functions.map fun entry =>
    Json.object [("function", .string entry.1), ("annotations", Stored.toJson entry.2)]
  let totals : List (Json.Key × Json) :=
    [("routines", Stored.toJson r.routines), ("statistics", Stored.toJson r.counts)]
  let rest :=
    if r.external.isEmpty then totals else ("external", Stored.toJson r.external) :: totals
  .object (("functions", .array functions) :: rest)

end LoopPragma
