import LoopPragma.Model.Id

namespace LoopPragma

inductive Defect where
  | misnumberedBlock (position : Nat) (id : BlockId)
  | misnumberedLoop (position : Nat) (id : LoopId)
  | misnumberedRegion (position : Nat) (id : RegionId)
  | loopBlock (id : LoopId) (block : BlockId)
  | regionBlock (id : RegionId) (block : BlockId)
  -- A parent that does not exist, or a region's parent that is not detached as the region is.
  | loopParent (id parent : LoopId)
  | regionParent (id parent : RegionId)
  | loopCycle (id : LoopId)
  | regionCycle (id : RegionId)
  -- The regions that are not detached have no root, or more than one.
  | noTopRegion
  | topRegions (count : Nat)
  | repeatedFunction
deriving DecidableEq

namespace Defect

def message : Defect → String
  | misnumberedBlock i id => s!"block at position {i} is numbered {id.label}"
  | misnumberedLoop i id => s!"loop at position {i} is numbered {id.label}"
  | misnumberedRegion i id => s!"region at position {i} is numbered {id.label}"
  | loopBlock id block => s!"loop {id.label} references {block.label}"
  | regionBlock id block => s!"region {id.label} references {block.label}"
  | loopParent id parent => s!"loop {id.label} has unknown parent {parent.label}"
  | regionParent id parent => s!"region {id.label} has invalid parent {parent.label}"
  | loopCycle id => s!"loop {id.label} is nested inside itself"
  | regionCycle id => s!"region {id.label} is nested inside itself"
  | noTopRegion => "no top-level region"
  | topRegions count => s!"{count} regions without a parent"
  | repeatedFunction => "function defined twice"

end Defect

structure ModelError where
  function : String
  defect : Defect
deriving DecidableEq

def ModelError.message (e : ModelError) : String :=
  e.defect.message ++ " in function `" ++ e.function ++ "`"

end LoopPragma
