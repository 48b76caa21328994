import LoopPragma.Json.Basic

namespace LoopPragma.Json

def hexDigit (n : Nat) : Char :=
  if n < 10 then Char.ofNat ('0'.toNat + n) else Char.ofNat ('a'.toNat + (n - 10))

def escapedChar (c : Char) : List Char :=
  match c with
  | '"' => ['\\', '"']
  | '\\' => ['\\', '\\']
  | '\x08' => ['\\', 'b']
  | '\x0c' => ['\\', 'f']
  | '\n' => ['\\', 'n']
  | '\r' => ['\\', 'r']
  | '\t' => ['\\', 't']
  | c =>
    if c.toNat < 0x20 then
      ['\\', 'u', '0', '0', hexDigit (c.toNat / 16), hexDigit (c.toNat % 16)]
    else [c]

def quoted (text : String) : String :=
  String.ofList ('"' :: text.toList.flatMap escapedChar ++ ['"'])

def scalarText : Json → String
  | .bool true => "true"
  | .bool false => "false"
  | .natural n => toString n
  | .number literal => literal
  | .string text => quoted text
  | _ => "null"

def inline (opening closing : String) (parts : List String) : String :=
  opening ++ ",".intercalate parts ++ closing

def lineStart (level : Nat) : String := String.ofList ('\n' :: List.replicate (2 * level) ' ')

def block (level : Nat) (opening closing : String) : List String → String
  | [] => opening ++ closing
  | parts =>
    opening ++ ",".intercalate (parts.map (lineStart (level + 1) ++ ·)) ++ lineStart level ++
      closing

def compact : Json → String
  | .array items => inline "[" "]" (items.attach.map fun ⟨item, _⟩ => item.compact)
  | .object members =>
    inline "\x7b" "\x7d" (members.attach.map fun ⟨m, _⟩ => quoted m.1.text ++ ":" ++ m.2.compact)
  | scalar => scalar.scalarText
decreasing_by
  · have := List.sizeOf_lt_of_mem ‹_ ∈ _›
    decreasing_trivial
  · have := List.sizeOf_lt_of_mem ‹m ∈ members›
    cases m
    simp only [Prod.mk.sizeOf_spec, Json.object.sizeOf_spec] at *
    omega

def prettyAt (level : Nat) : Json → String
  | .array items =>
    block level "[" "]" (items.attach.map fun ⟨item, _⟩ => item.prettyAt (level + 1))
  | .object members =>
    block level "\x7b" "\x7d" (members.attach.map fun ⟨m, _⟩ =>
      quoted m.1.text ++ ": " ++ m.2.prettyAt (level + 1))
  | scalar => scalar.scalarText
termination_by value => value
decreasing_by
  · have := List.sizeOf_lt_of_mem ‹_ ∈ _›
    decreasing_trivial
  · have := List.sizeOf_lt_of_mem ‹m ∈ members›
    cases m
    simp only [Prod.mk.sizeOf_spec, Json.object.sizeOf_spec] at *
    omega

-- Every item and member on a line of its own; what holds none stays on one line.
def pretty (value : Json) : String := value.prettyAt 0

end LoopPragma.Json
