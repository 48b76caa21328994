import LoopPragma.Document.Stored
import LoopPragma.Model.Draft

namespace LoopPragma

instance : Stored Tags where
  toJson t := .object [("parallel", toJson t.parallel), ("divergent", toJson t.divergent)]
  ofJson? j := do
    let field ← record? ["parallel", "divergent"] j
    return { parallel := ← orDefault? false (field "parallel")
             divergent := ← orDefault? false (field "divergent") }

instance : Stored Call where
  toJson c := .object [("callee", toJson c.callee), ("has_result", toJson c.hasResult)]
  ofJson? j := do
    let field ← record? ["callee", "has_result"] j
    return { callee := ← orDefault? none (field "callee")
             hasResult := ← orDefault? false (field "has_result") }

instance : Stored BlockDraft where
  toJson b := .object [("id", toJson b.id), ("lines", toJson b.lines), ("calls", toJson b.calls),
    ("tags", toJson b.tags)]
  ofJson? j := do
    let field ← record? ["id", "lines", "calls", "tags"] j
    return { id := ← required? (field "id")
             lines := ← orDefault? [] (field "lines")
             calls := ← orDefault? [] (field "calls")
             tags := ← orDefault? {} (field "tags") }

instance : Stored Linkage where
  toJson l := .string l.name
  ofJson? j := (tag? j).bind Linkage.ofName?

instance : Stored LoopDraft where
  toJson l := .object [("id", toJson l.id), ("header", toJson l.header), ("latch", toJson l.latch),
    ("blocks", toJson l.blocks), ("parent", toJson l.parent), ("start_line", toJson l.startLine)]
  ofJson? j := do
    let field ← record? ["id", "header", "latch", "blocks", "parent", "start_line"] j
    return { id := ← required? (field "id")
             header := ← required? (field "header")
             latch := ← orDefault? none (field "latch")
             blocks := ← required? (field "blocks")
             parent := ← orDefault? none (field "parent")
             startLine := ← orDefault? none (field "start_line") }

instance : Stored RegionDraft where
  toJson r := .object [("id", toJson r.id), ("parent", toJson r.parent),
    ("entering", toJson r.entering), ("blocks", toJson r.blocks), ("detached", toJson r.detached)]
  ofJson? j := do
    let field ← record? ["id", "parent", "entering", "blocks", "detached"] j
    return { id := ← required? (field "id")
             parent := ← orDefault? none (field "parent")
             entering := ← orDefault? none (field "entering")
             blocks := ← required? (field "blocks")
             detached := ← orDefault? false (field "detached") }

instance : Stored FunctionDraft where
  toJson f := .object [("name", toJson f.name), ("linkage", toJson f.linkage),
    ("blocks", toJson f.blocks), ("loops", toJson f.loops), ("regions", toJson f.regions)]
  ofJson? j := do
    let field ← record? ["name", "linkage", "blocks", "loops", "regions"] j
    return { name := ← required? (field "name")
             linkage := ← orDefault? .definition (field "linkage")
             blocks := ← orDefault? [] (field "blocks")
             loops := ← orDefault? [] (field "loops")
             regions := ← orDefault? [] (field "regions") }

instance : Stored ProgramDraft where
  toJson p := .object [("functions", toJson p.functions)]
  ofJson? j := do
    let field ← record? ["functions"] j
    return { functions := ← orDefault? [] (field "functions") }

end LoopPragma
