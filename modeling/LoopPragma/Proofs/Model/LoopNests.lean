import LoopPragma.Proofs.Model.CleanNesting
import LoopPragma.Proofs.Model.Resolution
import LoopPragma.Proofs.Nesting.BreadthFirst

namespace LoopPragma

open Relation

variable {numBlocks : Nat} {drafts : List LoopDraft} {L : LoopNesting numBlocks}

def LoopDraft.Has (d : LoopDraft) (block : Nat) : Prop :=
  ∃ id ∈ d.header :: d.blocks, id.index = block

-- The loops stand at the positions that their drafts have, with the same parents and, but for the
-- header, the same blocks.
structure LoopNesting.IsOf (L : LoopNesting numBlocks) (drafts : List LoopDraft) : Prop where
  size_eq : L.size = drafts.length
  mem_blocks_iff : ∀ lp b, b ∈ (L.info lp).blocks ↔
    ∃ d, drafts[lp.val]? = some d ∧ d.Has b.val
  parents : SameParents (drafts.map LoopDraft.parent) L.nesting.parents

theorem LoopInfo.mem_withHeader_iff {header b : Fin numBlocks} {blocks : List (Fin numBlocks)} :
    b ∈ withHeader header blocks ↔ b = header ∨ b ∈ blocks := by
  unfold withHeader
  by_cases h : header ∈ blocks
  · rw [if_pos (List.contains_iff_mem.mpr h)]
    exact (or_iff_right_of_imp fun heq => heq ▸ h).symm
  · rw [if_neg (mt List.contains_iff_mem.mp h), List.mem_cons]

theorem LoopInfo.mem_blocks_of_ofDraft {count position : Nat} {d : LoopDraft}
    {info : LoopInfo numBlocks} {parent : Option (Fin count)} {b : Fin numBlocks}
    (h : ofDraft numBlocks count position d = .ok (info, parent)) :
    b ∈ info.blocks ↔ d.Has b.val := by
  have hi := index_of_ofDraft h
  simp only [ofDraft, hi, ne_eq, not_true_eq_false, if_false, bind_eq_ok, pure, Except.pure,
    Except.ok.injEq, Prod.mk.injEq] at h
  obtain ⟨header, hheader, _, -, blocks, hblocks, _, -, rfl, -⟩ := h
  have hheader : d.header.index = b.val ↔ b = header := by
    rw [NodeId.resolveWith_eq_ok.mp hheader, Fin.ext_iff, eq_comm]
  have hblocks := NodeId.mem_iff_exists_of_mapM (fun _ _ => NodeId.resolveWith_eq_ok) hblocks
    (i := b)
  rw [BlockList.mem_def, mem_withHeader_iff, hblocks, LoopDraft.Has]
  simp [hheader]

namespace LoopNesting

theorem isOf_of_ofDrafts (h : ofDrafts numBlocks drafts = .ok L) : L.IsOf drafts := by
  unfold ofDrafts at h
  split at h
  · cases h
  · rename_i nodes hnodes
    split at h
    · cases h
    · rename_i N hN
      cases h
      refine ⟨rfl, fun lp b => ?_, ?_⟩
      · have hinfo : (nodes.map Prod.fst).get lp = (nodes.get lp).1 :=
          Vector.getElem_map Prod.fst lp.isLt
        have hblocks : b ∈ (nodes.get lp).1.blocks ↔ (drafts.get lp).Has b :=
          LoopInfo.mem_blocks_of_ofDraft (collect_eq_ok hnodes lp)
        simpa [info, hinfo] using hblocks
      · have hparents := Nesting.parents_of_ofParents hN
        exact hparents ▸ sameParents_of_collect hnodes

theorem owner_eq_some_iff {b : Fin numBlocks} {lp : Fin L.size} :
    L.owner b = some lp ↔ L.nesting.IsInnermost (fun lp => b ∈ (L.info lp).blocks) lp := by
  rw [owner_eq, holders, Nesting.deepest_filter_eq_some_iff]
  simp only [decide_eq_true_eq]

theorem owner_eq_none_iff {b : Fin numBlocks} :
    L.owner b = none ↔ ∀ lp, b ∉ (L.info lp).blocks := by
  rw [owner_eq, holders, Nesting.deepest_filter_eq_none_iff]
  simp only [decide_eq_true_eq]

-- An accepted draft has its loops at their positions. Of those around a block the deepest one owns
-- it, the last one if there are several. The nest of a loop is in level order, as a queue finds it,
-- and every loop is in the nest of one root.
theorem owners_and_nests_of_ofDrafts (h : ofDrafts numBlocks drafts = .ok L) :
    L.IsOf drafts ∧
    (∀ b lp, L.owner b = some lp ↔
      L.nesting.IsInnermost (fun lp => b ∈ (L.info lp).blocks) lp) ∧
    (∀ b, L.owner b = none ↔ ∀ lp, b ∉ (L.info lp).blocks) ∧
    (∀ lp, L.nesting.IsLevelOrder lp (L.nesting.nest lp) ∧
      L.nesting.nest lp = L.nesting.breadthFirst [lp]) ∧
    (L.nesting.roots.flatMap L.nesting.nest).Perm (List.finRange L.size) :=
  ⟨isOf_of_ofDrafts h, fun _ _ => owner_eq_some_iff, fun _ => owner_eq_none_iff,
    fun lp => ⟨Nesting.isLevelOrder_nest lp, Nesting.nest_eq_breadthFirst lp⟩,
    Nesting.flatMap_nest_roots_perm⟩

-- A loop within a loop within a loop, and one beside them that has blocks of two of these.
def crossedLoops : List LoopDraft :=
  [{ id := ⟨0⟩, header := ⟨0⟩, blocks := [⟨0⟩, ⟨1⟩, ⟨2⟩, ⟨3⟩] },
    { id := ⟨1⟩, header := ⟨1⟩, blocks := [⟨1⟩, ⟨2⟩], parent := some ⟨0⟩ },
    { id := ⟨2⟩, header := ⟨2⟩, blocks := [⟨2⟩], parent := some ⟨1⟩ },
    { id := ⟨3⟩, header := ⟨3⟩, blocks := [⟨1⟩, ⟨2⟩], parent := some ⟨0⟩ }]

def crossedNesting : LoopNesting 5 := (ofDrafts 5 crossedLoops).toOption.get (by decide +kernel)

theorem crossedNesting_owners_and_nests :
    let outer : Fin crossedNesting.size := ⟨0, by decide +kernel⟩
    let middle : Fin crossedNesting.size := ⟨1, by decide +kernel⟩
    let inner : Fin crossedNesting.size := ⟨2, by decide +kernel⟩
    let beside : Fin crossedNesting.size := ⟨3, by decide +kernel⟩
    ofDrafts 5 crossedLoops = .ok crossedNesting ∧ crossedNesting.IsOf crossedLoops ∧
      crossedNesting.owner 1 = some beside ∧ crossedNesting.owner 2 = some inner ∧
      crossedNesting.owner 3 = some beside ∧ crossedNesting.owner 4 = none ∧
      crossedNesting.nesting.nest outer = [outer, middle, beside, inner] ∧
      crossedNesting.nesting.IsLevelOrder outer [outer, middle, beside, inner] ∧
      (crossedNesting.nesting.roots.flatMap crossedNesting.nesting.nest).Perm
        (List.finRange crossedNesting.size) := by
  intro outer middle inner beside
  have h : ofDrafts 5 crossedLoops = .ok crossedNesting := eq_ok_get (by decide +kernel)
  obtain ⟨hof, howner, hnone, hnest, hroots⟩ := owners_and_nests_of_ofDrafts h
  have hlevels : crossedNesting.nesting.nest outer = [outer, middle, beside, inner] := by
    decide +kernel
  refine ⟨h, hof, ?_, ?_, ?_, ?_, hlevels, hlevels ▸ (hnest outer).1, hroots⟩
  · exact (howner 1 beside).mpr ⟨by decide +kernel, by decide +kernel⟩
  · exact (howner 2 inner).mpr ⟨by decide +kernel, by decide +kernel⟩
  · exact (howner 3 beside).mpr ⟨by decide +kernel, by decide +kernel⟩
  · exact (hnone 4).mpr (by decide +kernel)

end LoopNesting

end LoopPragma
