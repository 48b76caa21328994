import LoopPragma.Model.Function
import LoopPragma.Settings

namespace LoopPragma.Function

variable (f : Function)

def latchTags (lp : f.LoopIx) : Option Tags :=
  (f.loops.info lp).latch.map fun b => (f.blocks.get b).tags

def isMarkedParallel (lp : f.LoopIx) : Bool := (f.latchTags lp).any Tags.parallel

-- Marked, and not divergent either if divergent loops are to be left alone.
def isParallel (s : Settings) (lp : f.LoopIx) : Bool :=
  (f.latchTags lp).any fun tags => tags.parallel && !(s.discardDivergent && tags.divergent)

def hasParallelMark (r : f.RegionIx) : Bool :=
  (f.regionBlocks r).toList.any fun b => (f.blocks.get b).tags.parallel

-- The innermost loops around the blocks of a region, in the order of the blocks.
def touchingLoops (r : f.RegionIx) : List f.LoopIx :=
  (f.regionBlocks r).toList.filterMap f.innermostLoop

variable {f} in
theorem mem_touchingLoops_iff {r : f.RegionIx} {lp : f.LoopIx} :
    lp ∈ f.touchingLoops r ↔ ∃ b ∈ f.regionBlocks r, f.innermostLoop b = some lp :=
  List.mem_filterMap

def isReachable (r : f.RegionIx) : Bool := (f.regions.info r).entering.isSome || r = f.regions.top

-- Whether the loops of a region may share one data directive. Where parallel directives are asked
-- for, every loop in the region has to be parallel.
def isCoalescible (s : Settings) (r : f.RegionIx) : Bool :=
  f.isReachable r && (!s.emitParallel || (f.touchingLoops r).all (f.isParallel s))

-- Whether every region that a loop runs through passes a test, asked block by block from the header
-- on until one fails. A block without a region fails.
def allRegionsOf {m : Type → Type} [Monad m] (lp : f.LoopIx) (test : f.RegionIx → m Bool) :
    m Bool :=
  ((f.loops.info lp).header :: (f.loopBlocks lp).toList).allM fun b =>
    match f.innermostRegion b with
    | some r => test r
    | none => pure false

end LoopPragma.Function
