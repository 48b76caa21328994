import Std.Data.ExtTreeMap

namespace LoopPragma

inductive NodeKind where
  | block
  | loop
  | region
deriving DecidableEq

def NodeKind.mark : NodeKind → String
  | .block => "bb"
  | .loop => "L"
  | .region => "R"

structure NodeId (kind : NodeKind) where
  val : UInt32
deriving DecidableEq

abbrev BlockId := NodeId .block
abbrev LoopId := NodeId .loop
abbrev RegionId := NodeId .region

-- An id that names nothing in the function it was used on.
structure Fault where
  kind : NodeKind
  id : NodeId kind
deriving DecidableEq

namespace NodeId

variable {kind : NodeKind}

def index (id : NodeId kind) : Nat := id.val.toNat

def ofIndex (i : Nat) : NodeId kind := ⟨UInt32.ofNat i⟩

def ofFin {n : Nat} (i : Fin n) : NodeId kind := ofIndex i.val

def label (id : NodeId kind) : String := kind.mark ++ toString id.index

-- The position that an id stands for among `n` nodes.
def resolve (id : NodeId kind) (n : Nat) : Except Fault (Fin n) :=
  if h : id.index < n then .ok ⟨id.index, h⟩ else .error ⟨kind, id⟩

theorem index_lt (id : NodeId kind) : id.index < UInt32.size := id.val.toNat_lt

theorem index_ofIndex {i : Nat} (h : i < UInt32.size) : (ofIndex i : NodeId kind).index = i :=
  UInt32.toNat_ofNat_of_lt' h

theorem ofIndex_index (id : NodeId kind) : ofIndex id.index = id := by
  simp [ofIndex, index]

theorem index_inj {a b : NodeId kind} : a.index = b.index ↔ a = b := by
  refine ⟨fun h => ?_, fun h => h ▸ rfl⟩
  rw [← ofIndex_index a, h, ofIndex_index]

instance : Ord (NodeId kind) := ⟨fun a b => compare a.val b.val⟩

instance : Std.TransOrd (NodeId kind) where
  eq_swap := Std.OrientedOrd.eq_swap (α := UInt32)
  isLE_trans {a b c} h h' :=
    Std.TransOrd.isLE_trans (a := a.val) (b := b.val) (c := c.val) h h'

instance : Std.LawfulEqOrd (NodeId kind) where
  eq_of_compare {a b} h := by
    cases a
    cases b
    exact congrArg mk (Std.LawfulEqOrd.eq_of_compare (α := UInt32) h)

end NodeId

end LoopPragma
