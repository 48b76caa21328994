import LoopPragma.FactTable
import LoopPragma.Placement.Progress

namespace LoopPragma

def Function.beginsIn (f : Function) (r : f.RegionIx) (lp : f.LoopIx) : Bool :=
  (f.loops.info lp).header ∈ f.regionBlocks r

-- The outermost loops that begin in a region, found from the innermost loops around its blocks.
def Function.kernelLoops (f : Function) (r : f.RegionIx) : List f.LoopIx :=
  f.loops.nesting.topmosts (f.beginsIn r) [] (f.touchingLoops r)

namespace Job

open Place

variable {σ : Type} (j : Job σ)

-- With parallel directives a kernel directive goes to marked loops only, and the loops are counted
-- where they get their parallel directive.
def writeKernel (restriction : Option String) (lp : j.function.LoopIx) : Place σ Unit := do
  let some line := j.function.startLine lp | return
  let directive := j.settings.family.kernelDirective? restriction
  if j.settings.emitParallel then
    unless j.function.isMarkedParallel lp do return
    let new ← match directive with
      | some directive => annotateNew line directive
      | none => pure false
    let stamped ← j.stampNest lp ""
    if stamped = 0 && new then count .annotatedLoops 1
  else if let some directive := directive then
    annotate line directive
    count .annotatedLoops 1

def writeKernels (r : j.function.RegionIx) (restriction : Option String) : Place σ Unit := do
  if j.function.isCoalescible j.settings r then
    (j.function.kernelLoops r).forM fun lp => do
      j.countNest .analyzableLoops lp
      j.writeKernel restriction lp

-- Extracts the region of that id, which has to exist if the extraction succeeds.
def commitRegion (id : RegionId) (lines : LineSpan) : Place σ Unit := do
  let (computation, some extraction) ← j.extract (.region id lines) | return
  let r ← ofExcept (j.function.region id)
  j.registerCallees (j.function.regionBlocks r).toList
  merge extraction.comments
  j.writeKernels r (if extraction.restrict then some computation else none)
  annotate lines.stop closingBrace

-- Commits the reduced form of a region, if it has a safe one with known lines. Says whether that
-- was tried.
def commitReduced (id : RegionId) : Place σ Bool := do
  ask (j.analyses.analyzeReduced j.function id)
  record (.analyzed id)
  let some reduced ← ask (j.analyses.reducedForm j.function id) | return false
  unless ← ask (j.analyses.isSafe j.function reduced) do return false
  unless ← ask (j.analyses.isComplete j.function reduced) do return false
  let some lines ← ask (j.analyses.lines j.function reduced) | return false
  j.commitRegion reduced lines
  return true

-- Whether the walk goes on below a region. A region is committed if all its accesses are bounded,
-- or else through its reduced form.
def visitRegion (r : j.function.RegionIx) : Place σ Bool := do
  let id := j.function.regionId r
  let lines ← ask (j.analyses.lines j.function id)
  unless j.function.isCoalescible j.settings r do return true
  unless ← ask (j.analyses.isSafelyNested j.function id) do return true
  let some lines := lines | return true
  if ← ask (j.analyses.isComplete j.function id) then
    if ← ask (j.analyses.isSafe j.function id) then
      j.commitRegion id lines
      return false
  return !(← j.commitReduced id)

def offloadRegions (root : j.function.RegionIx) : Place σ Unit :=
  j.function.regions.nesting.walk j.visitRegion [root]

end Job

end LoopPragma
