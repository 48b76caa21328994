import LoopPragma.CommandLine.Run

namespace LoopPragma.CommandLine

def fileText? (path : String) : IO (Option String) := do
  try
    return some (← IO.FS.readFile path)
  catch _ =>
    return none

def fail (failure : Failure) : IO UInt32 := do
  let cause := match failure with
    | .usage _ => "error: invalid arguments"
    | .unreadable path => "Error: Failed to read file: " ++ path
    | .input error => "Error: Invalid input document: " ++ error.message
    | .fault fault => "Error: no such node: " ++ fault.id.label
    | .unwritable path => "Error: Failed to write output file: " ++ path
  IO.eprintln cause
  return .ofNat failure.status

end LoopPragma.CommandLine

open LoopPragma CommandLine in
def main (args : List String) : IO UInt32 := do
  match CommandLine.read args with
  | .error error => fail (.usage error)
  | .ok invocation =>
    let files ← invocation.inputs.mapM fun path => return (path, ← fileText? path)
    match invocation.output fun path => (files.lookup path).join with
    | .error failure => fail failure
    | .ok (text, none) =>
      IO.print text
      return 0
    | .ok (text, some path) =>
      try
        IO.FS.writeFile path text
        return 0
      catch _ =>
        fail (.unwritable path)
