import LoopPragma.Analyses
import LoopPragma.Counts
import LoopPragma.Routines

namespace LoopPragma

-- A loop at its first line, or a region at the lines resolved for it.
inductive Target where
  | loop (id : LoopId) (startLine : UInt32)
  | region (id : RegionId) (lines : LineSpan)
deriving DecidableEq

namespace Target

def label : Target → String
  | loop id _ => id.label
  | region id _ => id.label

def startLine : Target → UInt32
  | loop _ line => line
  | region _ lines => lines.start

end Target

-- What happened in a placement, in order.
inductive Event where
  | counted (counter : Counter) (amount : UInt64)
  | analyzed (region : RegionId)
  | extracted (target : Target) (request : ExtractRequest) (result : Option Extraction)
deriving DecidableEq

def Counts.ofEvents (events : List Event) : Counts :=
  events.foldl (fun c event => match event with
    | .counted counter amount => c.bump counter amount
    | _ => c) {}

structure Shared (σ : Type) where
  state : σ
  routines : Routines := ∅
  events : Array Event := #[]

structure Progress (σ : Type) extends Shared σ where
  annotations : Annotations := ∅
  -- The number of names given out.
  computations : UInt32 := 0

-- A fault ends the placement and keeps what was done before it.
abbrev Place (σ : Type) := EStateM Fault (Progress σ)

structure Job (σ : Type) where
  analyses : Analyses σ
  settings : Settings
  program : Program
  function : Function

namespace Place

variable {σ α : Type}

def ask (question : Consult σ α) : Place σ α := fun s =>
  match question s.state with
  | .error e state => .error e { s with state }
  | .ok answer state => .ok answer { s with state }

def record (event : Event) : Place σ Unit :=
  modify fun s => { s with events := s.events.push event }

def count (counter : Counter) (amount : Nat) : Place σ Unit :=
  record (.counted counter (.ofNat amount))

def annotate (line : UInt32) (directive : String) : Place σ Unit :=
  modify fun s => { s with annotations := s.annotations.add line directive }

-- The same, with the answer whether the directive was new at its line.
def annotateNew (line : UInt32) (directive : String) : Place σ Bool := do
  let new := ((← get).annotations.add? line directive).isSome
  annotate line directive
  return new

def merge (comments : Annotations) : Place σ Unit :=
  modify fun s => { s with annotations := s.annotations.merge comments }

def computationName (k : UInt32) : String := "AI" ++ toString k.toNat

-- Names are numbered from one in every function.
def freshName : Place σ String :=
  modifyGet fun s =>
    (computationName (s.computations + 1), { s with computations := s.computations + 1 })

end Place

namespace Job

open Place

variable {σ : Type} (j : Job σ)

-- Asks for the extraction of a loop or a region under a fresh name, and says which name that was.
def extract (target : Target) : Place σ (String × Option Extraction) := do
  let computation ← freshName
  let request := { computation, startLine := target.startLine, family := j.settings.family }
  let result ← ask (match target with
    | .loop id _ => j.analyses.extractLoop j.function request id
    | .region id _ => j.analyses.extractRegion j.function request id)
  record (.extracted target request result)
  return (computation, result)

def countNest (counter : Counter) (lp : j.function.LoopIx) : Place σ Unit :=
  count counter (j.function.nest lp).length

def registerCallees (blocks : List j.function.BlockIx) : Place σ Unit :=
  modify fun s => { s with
    routines := j.program.addRoutines j.settings.family (j.function.calleesIn blocks) s.routines }

-- The loops of a nest that get a parallel directive, with their lines, outer loops first. A loop
-- that is not parallel or has no line keeps the directive from everything below it.
def parallelNest (lp : j.function.LoopIx) : List (j.function.LoopIx × UInt32) :=
  let f := j.function
  (f.loops.nesting.prune (fun lp => f.isParallel j.settings lp && (f.startLine lp).isSome)
    [lp]).filterMap fun lp => (f.startLine lp).map (lp, ·)

def stampNest (lp : j.function.LoopIx) (guard : String) : Place σ Nat := do
  let directive := j.settings.family.loopDirective guard
  let stamped := j.parallelNest lp
  stamped.forM fun (_, line) => do
    count .annotatedLoops 1
    annotate line directive
  return stamped.length

end Job

end LoopPragma
