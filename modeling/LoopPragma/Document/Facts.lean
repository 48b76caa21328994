import LoopPragma.Document.Stored
import LoopPragma.FactTable

namespace LoopPragma

instance : Stored LineSpan where
  toJson s := .object [("start", toJson s.start), ("end", toJson s.stop)]
  ofJson? j := do
    let field ← record? ["start", "end"] j
    return { start := ← required? (field "start"), stop := ← required? (field "end") }

instance : Stored ExtractionFact where
  toJson e := .object [("comments", toJson e.comments), ("restrict", toJson e.restrict),
    ("test", toJson e.guard)]
  ofJson? j := do
    let field ← record? ["comments", "restrict", "test"] j
    return { comments := ← orDefault? ∅ (field "comments")
             restrict := ← orDefault? false (field "restrict")
             guard := ← orDefault? "" (field "test") }

instance : Stored FunctionFacts where
  toJson f := .object [("incomplete_side_effects", toJson f.incomplete),
    ("reduced_regions", toJson f.reduced), ("unsafe_reductions", toJson f.unsafeRegions),
    ("unsafe_scopes", toJson f.unsafeScopes), ("scope_lines", toJson f.scopeLines),
    ("loop_extractions", toJson f.loopExtractions),
    ("region_extractions", toJson f.regionExtractions)]
  ofJson? j := do
    let field ← record? ["incomplete_side_effects", "reduced_regions", "unsafe_reductions",
      "unsafe_scopes", "scope_lines", "loop_extractions", "region_extractions"] j
    return { incomplete := ← orDefault? ∅ (field "incomplete_side_effects")
             reduced := ← orDefault? ∅ (field "reduced_regions")
             unsafeRegions := ← orDefault? ∅ (field "unsafe_reductions")
             unsafeScopes := ← orDefault? ∅ (field "unsafe_scopes")
             scopeLines := ← orDefault? ∅ (field "scope_lines")
             loopExtractions := ← orDefault? ∅ (field "loop_extractions")
             regionExtractions := ← orDefault? ∅ (field "region_extractions") }

instance : Stored FactTable where
  toJson t := toJson t.functions
  ofJson? j := (ofJson? j).map .mk

end LoopPragma
