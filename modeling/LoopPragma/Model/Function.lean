import LoopPragma.Model.LoopNesting
import LoopPragma.Model.RegionNesting

namespace LoopPragma

-- Blocks, loops and regions are positions from here on. Ids occur only where a node is named from
-- outside.
structure Function where
  name : String
  linkage : Linkage
  numBlocks : Nat
  blocks : Vector Block numBlocks
  loops : LoopNesting numBlocks
  regions : RegionNesting numBlocks

namespace Function

def checkBlock (position : Nat) (d : BlockDraft) : Except Defect Block :=
  if d.id.index = position then .ok d.toBlock else .error (.misnumberedBlock position d.id)

-- A draft without regions becomes one region with every block in it.
def ofDraft (d : FunctionDraft) : Except ModelError Function :=
  Except.mapError (⟨d.name, ·⟩) do
    let blocks ← collect d.blocks.length fun i => checkBlock i (d.blocks.get i)
    let loops ← LoopNesting.ofDrafts d.blocks.length d.loops
    let regions ← if d.regions = [] then pure (RegionNesting.flat d.blocks.length)
      else RegionNesting.ofDrafts d.blocks.length d.regions
    return { name := d.name, linkage := d.linkage, blocks, loops, regions, .. }

variable (f : Function)

abbrev BlockIx := Fin f.numBlocks
abbrev LoopIx := Fin f.loops.size
abbrev RegionIx := Fin f.regions.size

def loopId (lp : f.LoopIx) : LoopId := .ofFin lp
def regionId (r : f.RegionIx) : RegionId := .ofFin r

def region (id : RegionId) : Except Fault f.RegionIx := id.resolve f.regions.size
def loop (id : LoopId) : Except Fault f.LoopIx := id.resolve f.loops.size

theorem region_regionId (r : f.RegionIx) : f.region (f.regionId r) = .ok r := by
  have hr : (NodeId.ofIndex r.val : RegionId).index = r.val :=
    NodeId.index_ofIndex (Nat.lt_of_lt_of_le r.isLt f.regions.size_le)
  simp [region, regionId, NodeId.ofFin, NodeId.resolve, hr]

theorem loop_loopId (lp : f.LoopIx) : f.loop (f.loopId lp) = .ok lp := by
  have hr : (NodeId.ofIndex lp.val : LoopId).index = lp.val :=
    NodeId.index_ofIndex (Nat.lt_of_lt_of_le lp.isLt f.loops.size_le)
  simp [loop, loopId, NodeId.ofFin, NodeId.resolve, hr]

def loopBlocks (lp : f.LoopIx) : BlockList f.numBlocks := (f.loops.info lp).blocks
def startLine (lp : f.LoopIx) : Option UInt32 := (f.loops.info lp).startLine
def nest (lp : f.LoopIx) : List f.LoopIx := f.loops.nesting.nest lp

def regionBlocks (r : f.RegionIx) : BlockList f.numBlocks := (f.regions.info r).blocks
def isDetached (r : f.RegionIx) : Bool := (f.regions.info r).detached

def innermostLoop (b : f.BlockIx) : Option f.LoopIx := f.loops.owner b
def innermostRegion (b : f.BlockIx) : Option f.RegionIx := f.regions.owner b

def firstBlock (r : f.RegionIx) : Option f.BlockIx := (f.regionBlocks r).toList.head?

-- The loop that a region stands for: the innermost one around its first block.
def ownerLoop (r : f.RegionIx) : Option f.LoopIx := (f.firstBlock r).bind f.innermostLoop

def callsIn (blocks : List f.BlockIx) : List Call := blocks.flatMap fun b => (f.blocks.get b).calls

def calleesIn (blocks : List f.BlockIx) : List String := (f.callsIn blocks).filterMap Call.callee

theorem mem_calleesIn_iff {blocks : List f.BlockIx} {callee : String} :
    callee ∈ f.calleesIn blocks ↔
      ∃ b ∈ blocks, ∃ call ∈ (f.blocks.get b).calls, call.callee = some callee := by
  simp only [calleesIn, callsIn, List.mem_filterMap, List.mem_flatMap]
  constructor
  · rintro ⟨call, ⟨b, hb, hcall⟩, hcallee⟩
    exact ⟨b, hb, call, hcall, hcallee⟩
  · rintro ⟨b, hb, call, hcall, hcallee⟩
    exact ⟨call, ⟨b, hb, hcall⟩, hcallee⟩

def allBlocks : List f.BlockIx := List.finRange f.numBlocks

def callees : List String := f.calleesIn f.allBlocks

def Calls (callee : String) : Prop :=
  ∃ b, ∃ call ∈ (f.blocks.get b).calls, call.callee = some callee

theorem mem_callees_iff {callee : String} : callee ∈ f.callees ↔ f.Calls callee := by
  simp [callees, mem_calleesIn_iff, allBlocks, Calls]

def isDeclaration : Bool := f.numBlocks = 0 || f.linkage = .declaration

-- Where the walk of a function begins: the outermost region around the entry block, if any.
def startRegion : f.RegionIx :=
  (f.allBlocks.head?.bind f.regions.outermost).getD f.regions.top

end Function

end LoopPragma
