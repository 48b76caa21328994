import LoopPragma.Model.BlockList
import LoopPragma.Model.Collect
import LoopPragma.Model.Defect
import LoopPragma.Model.Draft
import LoopPragma.Nesting.Walk

namespace LoopPragma

structure LoopInfo (numBlocks : Nat) where
  header : Fin numBlocks
  latch : Option (Fin numBlocks)
  blocks : BlockList numBlocks
  startLine : Option UInt32
  header_mem : header ∈ blocks

namespace LoopInfo

def withHeader {numBlocks : Nat} (header : Fin numBlocks) (blocks : List (Fin numBlocks)) :
    List (Fin numBlocks) :=
  if blocks.contains header then blocks else header :: blocks

theorem mem_withHeader {numBlocks : Nat} (header : Fin numBlocks) (blocks : List (Fin numBlocks)) :
    header ∈ withHeader header blocks := by
  unfold withHeader
  split <;> simp_all

-- A loop at a position of a draft with the given numbers of blocks and loops, and its parent. The
-- first reference without a target is the one reported.
def ofDraft (numBlocks count position : Nat) (d : LoopDraft) :
    Except Defect (LoopInfo numBlocks × Option (Fin count)) := do
  if d.id.index ≠ position then throw (.misnumberedLoop position d.id)
  let block (b : BlockId) := (b.resolve numBlocks).mapError fun _ => Defect.loopBlock d.id b
  let header ← block d.header
  let latch ← d.latch.mapM block
  let blocks ← d.blocks.mapM block
  let parent ← d.parent.mapM fun p => (p.resolve count).mapError fun _ => .loopParent d.id p
  return ({ header, latch, startLine := d.startLine
            blocks := ⟨withHeader header blocks, _, rfl⟩
            header_mem := mem_withHeader header blocks }, parent)

theorem index_of_ofDraft {numBlocks count position : Nat} {d : LoopDraft}
    {r : LoopInfo numBlocks × Option (Fin count)} (h : ofDraft numBlocks count position d = .ok r) :
    d.id.index = position := by
  by_cases hp : d.id.index = position
  · exact hp
  · simp [ofDraft, hp, throw, throwThe, MonadExceptOf.throw, bind, Except.bind] at h

end LoopInfo

structure LoopNesting (numBlocks : Nat) where
  size : Nat
  size_le : size ≤ UInt32.size
  nesting : Nesting size
  loops : Vector (LoopInfo numBlocks) size
  owners : Vector (Option (Fin size)) numBlocks := Vector.ofFn fun b =>
    nesting.deepest ((List.finRange size).filter fun lp => b ∈ (loops.get lp).blocks)
  owners_eq : owners = Vector.ofFn fun b =>
    nesting.deepest ((List.finRange size).filter fun lp => b ∈ (loops.get lp).blocks) := by rfl

namespace LoopNesting

def ofDrafts (numBlocks : Nat) (drafts : List LoopDraft) : Except Defect (LoopNesting numBlocks) :=
  match h : collect drafts.length fun i =>
    LoopInfo.ofDraft numBlocks drafts.length i (drafts.get i) with
  | .error e => .error e
  | .ok nodes =>
    match Nesting.ofParents (nodes.map Prod.snd) with
    | .error lp => .error (.loopCycle (.ofFin lp))
    | .ok nesting => .ok {
        size := drafts.length
        size_le := by
          rcases Nat.eq_zero_or_pos drafts.length with h0 | hpos
          · simp [h0]
          · have := LoopInfo.index_of_ofDraft (collect_eq_ok h ⟨drafts.length - 1, by omega⟩)
            have := NodeId.index_lt drafts[drafts.length - 1].id
            simp only [List.get_eq_getElem] at *
            omega
        nesting
        loops := nodes.map Prod.fst }

variable {numBlocks : Nat} (L : LoopNesting numBlocks)

def info (lp : Fin L.size) : LoopInfo numBlocks := L.loops.get lp

def owner (b : Fin numBlocks) : Option (Fin L.size) := L.owners.get b

def holders (b : Fin numBlocks) : List (Fin L.size) :=
  (List.finRange L.size).filter fun lp => b ∈ (L.info lp).blocks

theorem owner_eq (b : Fin numBlocks) : L.owner b = L.nesting.deepest (L.holders b) := by
  change L.owners[b] = _
  simp only [L.owners_eq, Fin.getElem_fin, Vector.getElem_ofFn]
  rfl

def draft (lp : Fin L.size) : LoopDraft :=
  let info := L.info lp
  { id := .ofFin lp
    header := .ofFin info.header
    latch := info.latch.map .ofFin
    blocks := info.blocks.toList.map .ofFin
    parent := (L.nesting.parent lp).map .ofFin
    startLine := info.startLine }

end LoopNesting

end LoopPragma
