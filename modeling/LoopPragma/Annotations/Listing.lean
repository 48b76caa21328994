import LoopPragma.Annotations.Basic

namespace LoopPragma.Annotations

def entryListing (line : UInt32) (text : List Char) : List Char :=
  (toString line.toNat).toList ++ [':', '\n'] ++
    (Text.lines text).flatMap fun l => [' ', ' ', ' ', ' '] ++ l ++ ['\n']

def listing (a : Annotations) : String :=
  String.ofList (a.toList.flatMap fun entry => entryListing entry.1 entry.2.toList)

end LoopPragma.Annotations
