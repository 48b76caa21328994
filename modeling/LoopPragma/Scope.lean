import LoopPragma.Eligibility
import LoopPragma.LineSpan

namespace LoopPragma.Function

variable (f : Function)

def firstLine (r : f.RegionIx) : Option UInt32 := ((f.touchingLoops r).filterMap f.startLine).min?

def lineAfter? (line : UInt32) : Option UInt32 :=
  if line.toNat + 1 < UInt32.size then some (line + 1) else none

def endLine (r : f.RegionIx) : Option UInt32 :=
  ((f.regionBlocks r).toList.filterMap fun b => (f.blocks.get b).maxLine).max?.bind lineAfter?

-- From the first loop of a region to the line after its last instruction, at least one line.
def debugLines (r : f.RegionIx) : Option LineSpan := do
  let start ← f.firstLine r
  let stop ← f.endLine r
  let next ← lineAfter? start
  return { start, stop := max stop next }

def isInside (lp : f.LoopIx) (r : f.RegionIx) : Bool :=
  (f.loopBlocks lp).toList.all (· ∈ f.regionBlocks r)

def isAround (lp : f.LoopIx) (r : f.RegionIx) : Bool :=
  (f.regionBlocks r).toList.all (· ∈ f.loopBlocks lp)

-- No loop that touches the region, and none around such a loop, is cut by the border of the region.
def nestsCleanly (r : f.RegionIx) : Bool :=
  (f.loops.nesting.upward (f.touchingLoops r)).all fun lp => f.isInside lp r || f.isAround lp r

end LoopPragma.Function
