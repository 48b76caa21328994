import LoopPragma.Annotations.Basic
import LoopPragma.Eligibility
import LoopPragma.LineSpan

namespace LoopPragma

-- The wish to turn a loop or a region into one computation.
structure ExtractRequest where
  computation : String
  startLine : UInt32
  family : Family
deriving DecidableEq

-- What an extracted computation needs in the source.
structure Extraction where
  comments : Annotations := ∅
  -- A test at run time decides whether the computation may be used.
  restrict : Bool := false
  guard : String := ""
deriving DecidableEq

abbrev Consult (σ : Type) := EStateM Fault σ

def ofExcept {σ α : Type} : Except Fault α → EStateM Fault σ α
  | .ok a => pure a
  | .error e => throw e

-- An answer may change the state that later answers come from.
structure Analyses (σ : Type) where
  -- Whether every memory access of a region could be bounded.
  isComplete : Function → RegionId → Consult σ Bool
  -- Asks for the bounds of the reduced form of a region.
  analyzeReduced : Function → RegionId → Consult σ Unit
  -- A smaller region in place of one that could not be bounded.
  reducedForm : Function → RegionId → Consult σ (Option RegionId)
  isSafe : Function → RegionId → Consult σ Bool
  lines : Function → RegionId → Consult σ (Option LineSpan)
  -- Whether the loops of a region nest within the source scopes.
  isSafelyNested : Function → RegionId → Consult σ Bool
  extractLoop : Function → ExtractRequest → LoopId → Consult σ (Option Extraction)
  extractRegion : Function → ExtractRequest → RegionId → Consult σ (Option Extraction)

-- Whether every region that a loop runs through could be bounded.
def Analyses.isAnalyzable {σ : Type} (A : Analyses σ) (f : Function) (lp : f.LoopIx) :
    Consult σ Bool :=
  f.allRegionsOf lp fun r => A.isComplete f (f.regionId r)

end LoopPragma
