namespace LoopPragma

-- The name of a member. One with characters written by their numbers is never taken for a number.
structure Json.Key where
  text : String
  isCoded : Bool := false
deriving DecidableEq

instance : Coe String Json.Key := ⟨fun text => { text }⟩

-- Members keep their order and their repetitions, because a reader of records has to see both.
inductive Json where
  | null
  | bool (value : Bool)
  -- A number written with digits only.
  | natural (value : Nat)
  -- A number with a sign, a fraction or an exponent, as it was written.
  | number (literal : String)
  | string (value : String)
  | array (items : List Json)
  | object (members : List (Json.Key × Json))
  -- A string with half a surrogate pair in it, or an object with such a key. It stands for no text,
  -- so it can only be passed over.
  | garbled
deriving Inhabited

-- The value of the first member with this name.
def Json.member? (members : List (Json.Key × Json)) (name : String) : Option Json :=
  (members.find? (·.1.text = name)).map (·.2)

end LoopPragma
