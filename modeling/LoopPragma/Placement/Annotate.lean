import LoopPragma.Placement.LoopWalk
import LoopPragma.Placement.RegionWalk
import LoopPragma.Report

namespace LoopPragma

namespace Job

open Place

variable {σ : Type} (j : Job σ)

def walkFrom (root : j.function.RegionIx) : Place σ Unit :=
  if j.settings.coalesce then j.offloadRegions root else j.markLoops root

-- Counts the loops that hold a block of their own, and the calls with a result in the outermost
-- loops that are analyzable.
def countLoops : Place σ Unit := do
  ((j.function.allBlocks.filterMap j.function.innermostLoop).eraseDups).forM fun _ => count .loops 1
  j.function.loops.nesting.roots.forM fun lp => do
    if ← ask (j.analyses.isAnalyzable j.function lp) then
      let calls := (j.function.callsIn (j.function.loopBlocks lp).toList).filter Call.hasResult
      count .safeLoopCalls calls.length

-- Without a parallel mark there is nothing to place on single loops.
def isWorthWalking (root : j.function.RegionIx) : Bool :=
  j.settings.coalesce || !j.settings.emitParallel || j.function.hasParallelMark root

def annotateBody : Place σ Unit := do
  j.countLoops
  if j.isWorthWalking j.function.startRegion then j.walkFrom j.function.startRegion

end Job

-- Routines, events and the state of the analyses carry over from function to function.
abbrev Share (σ : Type) := EStateM Fault (Shared σ)

variable {σ : Type}

def Job.annotate (j : Job σ) : Share σ Annotations := fun shared =>
  if j.function.isDeclaration then .ok ∅ shared
  else match j.annotateBody { toShared := shared } with
    | .ok _ s => .ok s.annotations s.toShared
    | .error e s => .error e s.toShared

-- The report counts every event, so it is the report on this program only after a fresh start.
def Program.annotate (p : Program) (A : Analyses σ) (s : Settings) : Share σ Report := do
  let each ← p.functions.mapM fun f => return (f.name, ← Job.annotate ⟨A, s, p, f⟩)
  let shared ← get
  return {
    functions := each.filter fun entry => !entry.2.isEmpty
    routines := shared.routines
    counts := .ofEvents shared.events.toList }

def Program.report (p : Program) (A : Analyses σ) (s : Settings) (state : σ) :
    Except Fault (Report × σ) :=
  match p.annotate A s { state } with
  | .ok report shared => .ok (report, shared.state)
  | .error e _ => .error e

end LoopPragma
