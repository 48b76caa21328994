import LoopPragma.Json.Basic
import LoopPragma.Model.Id
import LoopPragma.Text.Decimal
import Std.Data.ExtTreeSet

namespace LoopPragma

-- Reading takes more than writing gives: a field may be left out where it has a default, unknown
-- fields are passed over, and a record may be given as the list of its fields.
class Stored (α : Type) where
  toJson : α → Json
  ofJson? : Json → Option α

export Stored (toJson ofJson?)

-- Values that can be the key of a member.
class StoredKey (κ : Type) where
  toKey : κ → Json.Key
  ofKey? : Json.Key → Option κ

section Scalars

instance : Stored Bool where
  toJson := .bool
  ofJson?
    | .bool b => some b
    | _ => none

instance : Stored String where
  toJson := .string
  ofJson?
    | .string s => some s
    | _ => none

instance : Stored UInt32 where
  toJson n := .natural n.toNat
  ofJson?
    | .natural n => Decimal.toWord? n
    | _ => none

instance : Stored UInt64 where
  toJson n := .natural n.toNat
  ofJson?
    | .natural n => Decimal.toLongWord? n
    | _ => none

instance {kind : NodeKind} : Stored (NodeId kind) where
  toJson id := toJson id.val
  ofJson? j := (ofJson? j).map .mk

instance : StoredKey String where
  toKey text := text
  ofKey? key := some key.text

instance : StoredKey UInt32 where
  toKey n := toString n.toNat
  ofKey? key :=
    if key.isCoded then none
    else (Decimal.readShortest? key.text.toList).bind Decimal.toWord?

instance {kind : NodeKind} : StoredKey (NodeId kind) where
  toKey id := StoredKey.toKey id.val
  ofKey? key := (StoredKey.ofKey? key).map .mk

end Scalars

section Collections

variable {α κ : Type} [Stored α]

instance : Stored (Option α) where
  toJson a := a.elim .null toJson
  ofJson?
    | .null => some none
    | j => (ofJson? j).map some

instance : Stored (List α) where
  toJson as := .array (as.map toJson)
  ofJson?
    | .array items => items.mapM ofJson?
    | _ => none

-- In ascending order. Reading takes any order and passes over repetitions.
instance [Ord α] [Std.TransOrd α] : Stored (Std.ExtTreeSet α) where
  toJson as := toJson as.toList
  ofJson? j := (ofJson? j).map fun as : List α => Std.ExtTreeSet.ofList as

def member? [StoredKey κ] (m : Json.Key × Json) : Option (κ × α) := do
  return (← StoredKey.ofKey? m.1, ← ofJson? m.2)

-- One member for each key, in ascending order. Of the members with one key the last is read.
instance [StoredKey κ] [Ord κ] [Std.TransOrd κ] : Stored (Std.ExtTreeMap κ α) where
  toJson entries := .object (entries.toList.map fun e => (StoredKey.toKey e.1, toJson e.2))
  ofJson?
    | .object members => (members.mapM member?).map fun entries : List (κ × α) =>
        Std.ExtTreeMap.ofList entries
    | _ => none

end Collections

section Records

-- The value of each field of a record, if it is given. Fields are looked up by name in an object
-- and by position in a list. None of the names may be repeated, and the list may not be too long.
def record? (names : List String) : Json → Option (String → Option Json)
  | .object members =>
    if names.all fun name => (members.filter (·.1.text = name)).length ≤ 1 then
      some (Json.member? members)
    else none
  | .array items =>
    if items.length ≤ names.length then some fun name => (names.zip items).lookup name else none
  | _ => none

variable {α : Type} [Stored α]

def required? (value : Option Json) : Option α := value.bind ofJson?

def orDefault? (default : α) (value : Option Json) : Option α := value.elim (some default) ofJson?

def tag? : Json → Option String
  | .string name => some name
  | .object [(key, .null)] => some key.text
  | _ => none

end Records

end LoopPragma
