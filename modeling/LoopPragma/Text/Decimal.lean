namespace LoopPragma.Decimal

def digitValue (c : Char) : Nat := c.toNat - '0'.toNat

def value (digits : List Char) : Nat := digits.foldl (fun n d => 10 * n + digitValue d) 0

-- One digit or more, leading zeros allowed.
def read? (cs : List Char) : Option Nat :=
  if cs ≠ [] ∧ cs.all Char.isDigit then some (value cs) else none

-- The same with an optional plus sign in front.
def readSigned? : List Char → Option Nat
  | '+' :: cs => read? cs
  | cs => read? cs

-- The shortest numeral only: no zero in front of another digit.
def readShortest? (cs : List Char) : Option Nat :=
  if cs.head? = some '0' ∧ cs.length ≠ 1 then none else read? cs

def toWord? (n : Nat) : Option UInt32 := if n < UInt32.size then some (UInt32.ofNat n) else none

def toLongWord? (n : Nat) : Option UInt64 := if n < UInt64.size then some (UInt64.ofNat n) else none

-- The numeral of `n`, with blanks in front up to the given width.
def padded (width n : Nat) : String :=
  let digits := toString n
  String.ofList (List.replicate (width - digits.length) ' ') ++ digits

end LoopPragma.Decimal
