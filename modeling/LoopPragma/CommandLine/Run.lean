import LoopPragma.Annotations.Listing
import LoopPragma.CommandLine.Arguments
import LoopPragma.Document.Input
import LoopPragma.Document.Report
import LoopPragma.Json.Printer
import LoopPragma.Placement.Annotate

namespace LoopPragma.CommandLine

def versionText : String := "autopar 0.1.0\n"

inductive Failure where
  | usage (error : UsageError)
  -- A file that does not exist or holds no text.
  | unreadable (path : String)
  | input (error : LoadError)
  | fault (fault : Fault)
  | unwritable (path : String)
deriving DecidableEq

def Failure.status : Failure → Nat
  | usage _ => 2
  | fault _ => 101
  | _ => 1

def Format.render (format : Format) (r : Report) : String :=
  match format with
  | .listing => r.merged.listing
  | .json => r.toJson.pretty
  | .stats => r.counts.text

def readText (file : String → Option String) (path : String) : Except Failure String :=
  match file path with
  | some text => .ok text
  | none => .error (.unreadable path)

-- The report on an input file. The program is checked even if a line list takes its place.
def Options.report (o : Options) (file : String → Option String) : Except Failure Report := do
  let document ← readText file o.input
  let (program, facts) ← (Input.loadText document).mapError .input
  match o.lineList with
  | some path => return .ofLineList (← readText file path) o.settings.family
  | none =>
    let (report, _) ← (program.report FactTable.analyses o.settings facts).mapError .fault
    return report

def Invocation.output (i : Invocation) (file : String → Option String) :
    Except Failure (String × Option String) :=
  match i with
  | .version => .ok (versionText, none)
  | .run o => (o.report file).map fun report => (o.format.render report, o.output)

def Invocation.inputs : Invocation → List String
  | .version => []
  | .run o => o.input :: o.lineList.toList

end LoopPragma.CommandLine
