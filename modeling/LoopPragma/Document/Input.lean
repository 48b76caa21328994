import LoopPragma.Document.Facts
import LoopPragma.Document.Program
import LoopPragma.Json.Reader
import LoopPragma.Model.Program

namespace LoopPragma

structure Input where
  program : ProgramDraft
  facts : FactTable := {}

instance : Stored Input where
  toJson i := .object [("module", toJson i.program), ("facts", toJson i.facts)]
  ofJson? j := do
    let field ← record? ["module", "facts"] j
    return { program := ← required? (field "module"), facts := ← orDefault? {} (field "facts") }

inductive LoadError where
  | malformed
  | model (error : ModelError)
deriving DecidableEq

def LoadError.message : LoadError → String
  | malformed => "JSON error"
  | model error => "IR error: " ++ error.message

-- The whole document is read before its program is checked.
def Input.load (document : Option Json) : Except LoadError (Program × FactTable) :=
  match document.bind (ofJson? : Json → Option Input) with
  | none => .error .malformed
  | some input =>
    match Program.ofDraft input.program with
    | .error e => .error (.model e)
    | .ok program => .ok (program, input.facts)

def Input.loadText (text : String) : Except LoadError (Program × FactTable) :=
  load (Json.read? text)

end LoopPragma
