import LoopPragma.Json.Basic
import LoopPragma.Text.Decimal

namespace LoopPragma.Json

def isSpace (c : Char) : Bool := c = ' ' || c = '\t' || c = '\n' || c = '\r'

def skipSpace (cs : List Char) : List Char := cs.dropWhile isSpace

section Strings

-- What stands between two quotes: a character, or a code unit written by its number.
inductive StringItem where
  | char (c : Char)
  | unit (u : Nat)

def StringItem.isUnit : StringItem → Bool
  | char _ => false
  | unit _ => true

def hexValue? (c : Char) : Option Nat :=
  if c.isDigit then some (c.toNat - '0'.toNat)
  else if 'a' ≤ c ∧ c ≤ 'f' then some (c.toNat - 'a'.toNat + 10)
  else if 'A' ≤ c ∧ c ≤ 'F' then some (c.toNat - 'A'.toNat + 10)
  else none

def codeUnit? (digits : List Char) : Option Nat := do
  let values ← digits.mapM hexValue?
  return values.foldl (fun n d => 16 * n + d) 0

-- The character that a backslash and this letter stand for.
def escaped? : Char → Option Char
  | '"' => some '"'
  | '\\' => some '\\'
  | '/' => some '/'
  | 'b' => some '\x08'
  | 'f' => some '\x0c'
  | 'n' => some '\n'
  | 'r' => some '\r'
  | 't' => some '\t'
  | _ => none

-- The items up to the closing quote, and what follows it.
def stringItems? (found : List StringItem) : List Char → Option (List StringItem × List Char)
  | [] => none
  | '"' :: rest => some (found.reverse, rest)
  | '\\' :: 'u' :: a :: b :: c :: d :: rest =>
    match codeUnit? [a, b, c, d] with
    | some u => stringItems? (.unit u :: found) rest
    | none => none
  | '\\' :: c :: rest =>
    match escaped? c with
    | some c => stringItems? (.char c :: found) rest
    | none => none
  | c :: rest => if c.toNat < 0x20 then none else stringItems? (.char c :: found) rest

def isHighSurrogate (u : Nat) : Bool := 0xD800 ≤ u && u < 0xDC00

def isLowSurrogate (u : Nat) : Bool := 0xDC00 ≤ u && u < 0xE000

-- The characters that items stand for. A surrogate counts only in front of or behind its partner.
def characters? : List StringItem → Option (List Char)
  | [] => some []
  | .char c :: rest => (characters? rest).map (c :: ·)
  | .unit u :: rest =>
    if isHighSurrogate u then
      match rest with
      | .unit v :: rest =>
        if isLowSurrogate v then
          (characters? rest).map (Char.ofNat (0x10000 + (u - 0xD800) * 0x400 + (v - 0xDC00)) :: ·)
        else none
      | _ => none
    else if isLowSurrogate u then none
    else (characters? rest).map (Char.ofNat u :: ·)

end Strings

section Numbers

def digits? (cs : List Char) : Option (List Char × List Char) :=
  let digits := cs.takeWhile Char.isDigit
  if digits = [] then none else some (digits, cs.dropWhile Char.isDigit)

-- An optional part of a number. A part that begins has to be complete.
def fraction? : List Char → Option (List Char × List Char)
  | '.' :: rest => (digits? rest).map fun (digits, rest) => ('.' :: digits, rest)
  | rest => some ([], rest)

def exponentDigits? (mark : List Char) (cs : List Char) : Option (List Char × List Char) :=
  (digits? cs).map fun (digits, rest) => (mark ++ digits, rest)

def exponent? : List Char → Option (List Char × List Char)
  | 'e' :: '+' :: rest => exponentDigits? ['e', '+'] rest
  | 'e' :: '-' :: rest => exponentDigits? ['e', '-'] rest
  | 'e' :: rest => exponentDigits? ['e'] rest
  | 'E' :: '+' :: rest => exponentDigits? ['E', '+'] rest
  | 'E' :: '-' :: rest => exponentDigits? ['E', '-'] rest
  | 'E' :: rest => exponentDigits? ['E'] rest
  | rest => some ([], rest)

def unsigned? (sign : List Char) (cs : List Char) : Option (Json × List Char) := do
  let (whole, rest) ← digits? cs
  if whole.head? = some '0' ∧ whole.length ≠ 1 then none
  let (fraction, rest) ← fraction? rest
  let (exponent, rest) ← exponent? rest
  if sign = [] ∧ fraction = [] ∧ exponent = [] then
    return (.natural (Decimal.value whole), rest)
  else
    return (.number (String.ofList (sign ++ whole ++ fraction ++ exponent)), rest)

def number? : List Char → Option (Json × List Char)
  | '-' :: rest => unsigned? ['-'] rest
  | rest => unsigned? [] rest

end Numbers

section Values

-- What a string behind its opening quote stands for, if it stands for a text, and what follows.
def text? (cs : List Char) : Option (Option Key × List Char) :=
  (stringItems? [] cs).map fun (items, rest) =>
    ((characters? items).map fun cs =>
      { text := String.ofList cs, isCoded := items.any StringItem.isUnit }, rest)

-- Half a surrogate pair in a key spoils the whole object.
def objectOf (members : List (Option Key × Json)) : Json :=
  match members.mapM fun m => m.1.map (·, m.2) with
  | some members => .object members
  | none => .garbled

mutual

-- The value in front and what follows it. Two steps of fuel for every character are enough.
def value? : Nat → List Char → Option (Json × List Char)
  | 0, _ => none
  | fuel + 1, cs =>
    match cs with
    | 'n' :: 'u' :: 'l' :: 'l' :: rest => some (.null, rest)
    | 't' :: 'r' :: 'u' :: 'e' :: rest => some (.bool true, rest)
    | 'f' :: 'a' :: 'l' :: 's' :: 'e' :: rest => some (.bool false, rest)
    | '"' :: rest =>
      (text? rest).map fun (text, rest) => (text.elim .garbled (.string ·.text), rest)
    | '[' :: rest =>
      match skipSpace rest with
      | ']' :: rest => some (.array [], rest)
      | rest => items? fuel [] rest
    | '{' :: rest =>
      match skipSpace rest with
      | '}' :: rest => some (.object [], rest)
      | rest => members? fuel [] rest
    | cs => number? cs

def items? : Nat → List Json → List Char → Option (Json × List Char)
  | 0, _, _ => none
  | fuel + 1, found, cs =>
    match value? fuel (skipSpace cs) with
    | none => none
    | some (item, rest) =>
      match skipSpace rest with
      | ',' :: rest => items? fuel (item :: found) rest
      | ']' :: rest => some (.array (item :: found).reverse, rest)
      | _ => none

def members? : Nat → List (Option Key × Json) → List Char → Option (Json × List Char)
  | 0, _, _ => none
  | fuel + 1, found, cs =>
    match skipSpace cs with
    | '"' :: rest =>
      match text? rest with
      | none => none
      | some (key, rest) =>
        match skipSpace rest with
        | ':' :: rest =>
          match value? fuel (skipSpace rest) with
          | none => none
          | some (value, rest) =>
            match skipSpace rest with
            | ',' :: rest => members? fuel ((key, value) :: found) rest
            | '}' :: rest => some (objectOf ((key, value) :: found).reverse, rest)
            | _ => none
        | _ => none
    | _ => none

end

def read? (text : String) : Option Json :=
  let cs := text.toList
  match value? (2 * cs.length + 2) (skipSpace cs) with
  | some (value, rest) => if skipSpace rest = [] then some value else none
  | none => none

end Values

end LoopPragma.Json
