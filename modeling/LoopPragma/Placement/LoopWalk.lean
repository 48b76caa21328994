import LoopPragma.Placement.Progress

namespace LoopPragma.Job

open Place

variable {σ : Type} (j : Job σ)

def isEligible (r : j.function.RegionIx) (lp : j.function.LoopIx) : Place σ Bool := do
  if j.settings.emitParallel && !j.function.isParallel j.settings lp then return false
  if ← ask (j.analyses.isAnalyzable j.function lp) then
    ask (j.analyses.isSafelyNested j.function (j.function.regionId r))
  else return false

def commitLoop (lp : j.function.LoopIx) (startLine : UInt32) : Place σ Unit := do
  let (_, some extraction) ← j.extract (.loop (j.function.loopId lp) startLine) | return
  j.registerCallees (j.function.loopBlocks lp).toList
  merge extraction.comments
  if j.settings.emitParallel then
    let _ ← j.stampNest lp extraction.guard
  else
    j.countNest .annotatedLoops lp

-- Whether the walk goes on below a region. It does not below an eligible loop, whether the
-- extraction succeeds or not.
def visitLoopOf (r : j.function.RegionIx) : Place σ Bool := do
  let some lp := j.function.ownerLoop r | return true
  unless ← j.isEligible r lp do return true
  j.countNest .analyzableLoops lp
  if let some startLine := j.function.startLine lp then
    j.commitLoop lp startLine
  return false

def markLoops (root : j.function.RegionIx) : Place σ Unit :=
  j.function.regions.nesting.walk j.visitLoopOf [root]

end LoopPragma.Job
