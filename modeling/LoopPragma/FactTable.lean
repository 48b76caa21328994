import LoopPragma.Analyses
import LoopPragma.Scope
import Std.Data.ExtTreeSet

namespace LoopPragma

-- The texts of an extraction, with a placeholder for the name of the computation.
structure ExtractionFact where
  comments : Std.ExtTreeMap UInt32 String := ∅
  restrict : Bool := false
  guard : String := ""

namespace ExtractionFact

def placeholder : List Char := ['{', 'n', 'a', 'm', 'e', '}']

def fill (computation text : String) : String :=
  String.ofList (Text.replaceAll placeholder computation.toList text.toList)

def instantiate (fact : ExtractionFact) (computation : String) : Extraction :=
  { comments :=
      fact.comments.toList.foldl (fun a entry => a.add entry.1 (fill computation entry.2)) ∅
    restrict := fact.restrict
    guard := fill computation fact.guard }

end ExtractionFact

-- What no table mentions is taken to be fine, except that nothing is extracted without an entry.
structure FunctionFacts where
  incomplete : Std.ExtTreeSet RegionId := ∅
  reduced : Std.ExtTreeMap RegionId RegionId := ∅
  unsafeRegions : Std.ExtTreeSet RegionId := ∅
  unsafeScopes : Std.ExtTreeSet RegionId := ∅
  -- Source lines that are not to be read off the instructions.
  scopeLines : Std.ExtTreeMap RegionId LineSpan := ∅
  loopExtractions : Std.ExtTreeMap LoopId ExtractionFact := ∅
  regionExtractions : Std.ExtTreeMap RegionId ExtractionFact := ∅
  -- Detached regions that were analyzed on demand. No document knows of them.
  analyzed : Std.ExtTreeSet RegionId := ∅

structure FactTable where
  functions : Std.ExtTreeMap String FunctionFacts := ∅

namespace FactTable

def factsOf (t : FactTable) (f : Function) : Option FunctionFacts := t.functions[f.name]?

def edit (t : FactTable) (name : String) (change : FunctionFacts → FunctionFacts) : FactTable :=
  ⟨t.functions.insert name (change (t.functions[name]?.getD {}))⟩

variable (t : FactTable) (f : Function)

-- A detached region could only be bounded once it was analyzed.
def isComplete (r : RegionId) : Except Fault Bool :=
  match t.factsOf f with
  | none => (f.region r).map fun i => !f.isDetached i
  | some facts =>
    if r ∈ facts.incomplete then .ok false
    else (f.region r).map fun i => !f.isDetached i || r ∈ facts.analyzed

def reducedForm (r : RegionId) : Option RegionId :=
  (t.factsOf f).bind fun facts => facts.reduced[r]?

def analyzeReduced (r : RegionId) : FactTable :=
  match t.reducedForm f r with
  | some reduced =>
    t.edit f.name fun facts => { facts with analyzed := facts.analyzed.insert reduced }
  | none => t

def isSafe (r : RegionId) : Bool := (t.factsOf f).all fun facts => r ∉ facts.unsafeRegions

def lines (r : RegionId) : Except Fault (Option LineSpan) :=
  match (t.factsOf f).bind fun facts => facts.scopeLines[r]? with
  | some span => .ok (some span)
  | none => (f.region r).map f.debugLines

def isSafelyNested (r : RegionId) : Except Fault Bool :=
  if (t.factsOf f).any fun facts => r ∈ facts.unsafeScopes then .ok false
  else (f.region r).map f.nestsCleanly

def extractLoop (computation : String) (lp : LoopId) : Option Extraction :=
  (t.factsOf f).bind fun facts => facts.loopExtractions[lp]?.map (·.instantiate computation)

def extractRegion (computation : String) (r : RegionId) : Option Extraction :=
  (t.factsOf f).bind fun facts => facts.regionExtractions[r]?.map (·.instantiate computation)

-- The tables as analyses. Only the analysis of a reduced region changes them.
def analyses : Analyses FactTable where
  isComplete f r := do ofExcept ((← get).isComplete f r)
  analyzeReduced f r := modify (·.analyzeReduced f r)
  reducedForm f r := return (← get).reducedForm f r
  isSafe f r := return (← get).isSafe f r
  lines f r := do ofExcept ((← get).lines f r)
  isSafelyNested f r := do ofExcept ((← get).isSafelyNested f r)
  extractLoop f request lp := return (← get).extractLoop f request.computation lp
  extractRegion f request r := return (← get).extractRegion f request.computation r

end FactTable

end LoopPragma
