import LoopPragma.Model.Defect
import LoopPragma.Model.Draft
import Mathlib.Logic.Relation

namespace LoopPragma

open Relation

-- What a draft has to satisfy. Every kind of defect stands for one of these.
inductive Requirement where
  | numbered
  | knownBlocks
  | knownLoops
  -- The parent of a region is a region of the function, and detached exactly if the region is.
  | knownRegions
  -- No loop, and no region, is its own proper ancestor.
  | acyclicLoops
  | acyclicRegions
  -- Of the regions, if there are any, one and only one is attached and has no parent.
  | someTop
  | oneTop
  | distinctNames
deriving DecidableEq

def Defect.requirement : Defect → Requirement
  | misnumberedBlock .. | misnumberedLoop .. | misnumberedRegion .. => .numbered
  | loopBlock .. | regionBlock .. => .knownBlocks
  | loopParent .. => .knownLoops
  | regionParent .. => .knownRegions
  | loopCycle .. => .acyclicLoops
  | regionCycle .. => .acyclicRegions
  | noTopRegion => .someTop
  | topRegions .. => .oneTop
  | repeatedFunction => .distinctNames

section Nodes

variable {kind : NodeKind}

def Numbered (ids : List (NodeId kind)) : Prop := ∀ i (h : i < ids.length), ids[i].index = i

theorem numbered_map_iff {α : Type} {drafts : List α} {id : α → NodeId kind} :
    Numbered (drafts.map id) ↔ ∀ i, (id (drafts.get i)).index = i.val := by
  constructor
  · intro h i
    simpa using h i.val (by simp)
  · intro h i hi
    have hlt : i < drafts.length := by simpa using hi
    simpa using h ⟨i, hlt⟩

def NamesParent (parents : List (Option (NodeId kind))) (i p : Nat) : Prop :=
  ∃ id, parents[i]? = some (some id) ∧ id.index = p

def Acyclic (parents : List (Option (NodeId kind))) : Prop :=
  ∀ i, ¬TransGen (NamesParent parents) i i

end Nodes

def LoopDraft.references (d : LoopDraft) : List BlockId := d.header :: (d.latch.toList ++ d.blocks)

def RegionDraft.references (d : RegionDraft) : List BlockId := d.entering.toList ++ d.blocks

def RegionDraft.IsTop (d : RegionDraft) : Prop := d.parent = none ∧ d.detached = false

def FunctionDraft.Meets (d : FunctionDraft) : Requirement → Prop
  | .numbered =>
    Numbered (d.blocks.map BlockDraft.id) ∧ Numbered (d.loops.map LoopDraft.id) ∧
      Numbered (d.regions.map RegionDraft.id)
  | .knownBlocks =>
    (∀ lp ∈ d.loops, ∀ b ∈ lp.references, b.index < d.blocks.length) ∧
      ∀ r ∈ d.regions, ∀ b ∈ r.references, b.index < d.blocks.length
  | .knownLoops => ∀ lp ∈ d.loops, ∀ p, lp.parent = some p → p.index < d.loops.length
  | .knownRegions =>
    ∀ r ∈ d.regions, ∀ p, r.parent = some p →
      ∃ q, d.regions[p.index]? = some q ∧ q.detached = r.detached
  | .acyclicLoops => Acyclic (d.loops.map LoopDraft.parent)
  | .acyclicRegions => Acyclic (d.regions.map RegionDraft.parent)
  | .someTop => d.regions = [] ∨ ∃ r ∈ d.regions, r.IsTop
  | .oneTop =>
    ∀ i (hi : i < d.regions.length) k (hk : k < d.regions.length),
      d.regions[i].IsTop → d.regions[k].IsTop → i = k
  -- Names are compared between functions.
  | .distinctNames => True

def ProgramDraft.Meets (d : ProgramDraft) (r : Requirement) : Prop :=
  (∀ f ∈ d.functions, f.Meets r) ∧
    (r = .distinctNames → (d.functions.map FunctionDraft.name).Nodup)

def ProgramDraft.named (d : ProgramDraft) (name : String) : ProgramDraft :=
  ⟨d.functions.filter fun f => f.name = name⟩

end LoopPragma
