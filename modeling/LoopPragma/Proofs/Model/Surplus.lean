import LoopPragma.Proofs.Model.Sessions
import LoopPragma.Proofs.Model.Tops

namespace LoopPragma

theorem NodeId.index_ofIndex_size_ne (kind : NodeKind) :
    (ofIndex UInt32.size : NodeId kind).index ≠ UInt32.size := by
  have := (ofIndex UInt32.size : NodeId kind).index_lt
  omega

theorem LoopInfo.exists_ofDraft_eq_ok {numBlocks count i : Nat} {d : LoopDraft}
    (h : IsPlaced numBlocks i d.id d.references d.parent) (hi : i < UInt32.size)
    (hcount : i ≤ count) : ∃ r, ofDraft numBlocks count i d = .ok r := by
  refine exists_ok_of_ne_error fun e he => ?_
  rcases ofDraft_eq_error he with ⟨hne, -⟩ | ⟨b, hb, hge, -⟩ | ⟨p, hp, hge, -⟩
  · exact hne (h.index_eq hi)
  · have := h.references b hb
    omega
  · have := h.parent p hp
    omega

-- Only its parent can be wrong with a placed region that has an id of its own.
theorem RegionInfo.parent_of_ofDraft_eq_error {numBlocks i : Nat} {drafts : List RegionDraft}
    {d : RegionDraft} {e : Defect} (h : IsPlaced numBlocks i d.id d.references d.parent)
    (hi : i < UInt32.size) (he : ofDraft numBlocks drafts i d = .error e) :
    ∃ p, d.parent = some p ∧ (∀ q, drafts[p.index]? = some q → q.detached ≠ d.detached) ∧
      e = .regionParent d.id p := by
  rcases ofDraft_eq_error he with ⟨hne, -⟩ | ⟨b, hb, hge, -⟩ | hparent
  · exact absurd (h.index_eq hi) hne
  · have := h.references b hb
    omega
  · exact hparent

theorem LoopNesting.ofDrafts_of_collect {numBlocks : Nat} {drafts : List LoopDraft} {e : Defect}
    (h : collect drafts.length (fun i =>
      LoopInfo.ofDraft numBlocks drafts.length i (drafts.get i)) = .error e) :
    ofDrafts numBlocks drafts = .error e := by
  unfold ofDrafts
  split
  · rename_i he
    rw [Except.error.inj (he.symm.trans h)]
  · rename_i hnodes
    cases hnodes.symm.trans h

theorem RegionNesting.ofDrafts_of_collect {numBlocks : Nat} {drafts : List RegionDraft}
    {e : Defect} (h : collect drafts.length (fun i =>
      RegionInfo.ofDraft numBlocks drafts i (drafts.get i)) = .error e) :
    ofDrafts numBlocks drafts = .error e := by
  unfold ofDrafts
  split
  · rename_i he
    rw [Except.error.inj (he.symm.trans h)]
  · rename_i hnodes
    cases hnodes.symm.trans h

namespace FunctionDraft

variable {d : FunctionDraft}

-- Without the regions that have no id of their own.
def withoutSurplus (d : FunctionDraft) : FunctionDraft :=
  { d with regions := d.regions.take UInt32.size }

theorem getElem?_withoutSurplus {i : Nat} (hi : i < UInt32.size) :
    d.withoutSurplus.regions[i]? = d.regions[i]? := List.getElem?_take_of_lt hi

namespace IsOrderly

variable (h : d.IsOrderly)
include h

theorem placed_loop (k : Fin d.loops.length) : IsPlaced d.blocks.length k (d.loops.get k).id
    (d.loops.get k).references (d.loops.get k).parent := h.loops k _ (by simp)

theorem placed_region (k : Fin d.regions.length) : IsPlaced d.blocks.length k (d.regions.get k).id
    (d.regions.get k).references (d.regions.get k).parent := h.regions k _ (by simp)

theorem exists_checkBlock_eq_ok (i : Fin d.blocks.length) (hi : i < UInt32.size) :
    ∃ b, Function.checkBlock i (d.blocks.get i) = .ok b := by
  have hid : (d.blocks.get i).id.index = i := by
    rw [h.blocks i (d.blocks.get i) (by simp), NodeId.index_ofIndex hi]
  exact ⟨_, if_pos hid⟩

theorem ofDraft_of_surplus_block (hmany : UInt32.size < d.blocks.length) :
    Function.ofDraft d = .error ⟨d.name, .misnumberedBlock UInt32.size ⟨0⟩⟩ := by
  have hcollect : collect d.blocks.length (fun i => Function.checkBlock i (d.blocks.get i)) =
      .error (.misnumberedBlock UInt32.size ⟨0⟩) := by
    refine collect_eq_error_of_first (i := ⟨UInt32.size, hmany⟩) ?_ fun k hk =>
      h.exists_checkBlock_eq_ok k hk
    rw [Function.checkBlock, h.blocks UInt32.size _ (by simp)]
    exact if_neg (NodeId.index_ofIndex_size_ne .block)
  rw [Function.ofDraft, hcollect]
  rfl

variable (hblocks : d.blocks.length ≤ UInt32.size)
include hblocks

theorem exists_collect_blocks_eq_ok : ∃ blocks,
    collect d.blocks.length (fun i => Function.checkBlock i (d.blocks.get i)) = .ok blocks := by
  refine exists_ok_of_ne_error fun e he => ?_
  obtain ⟨i, hi, -⟩ := collect_eq_error he
  obtain ⟨b, hb⟩ := h.exists_checkBlock_eq_ok i (i.isLt.trans_le hblocks)
  cases hi.symm.trans hb

theorem ofDraft_of_surplus_loop (hmany : UInt32.size < d.loops.length) :
    Function.ofDraft d = .error ⟨d.name, .misnumberedLoop UInt32.size ⟨0⟩⟩ := by
  obtain ⟨blocks, hcollected⟩ := h.exists_collect_blocks_eq_ok hblocks
  have hloops : LoopNesting.ofDrafts d.blocks.length d.loops =
      .error (.misnumberedLoop UInt32.size ⟨0⟩) := by
    refine LoopNesting.ofDrafts_of_collect ?_
    refine collect_eq_error_of_first (i := ⟨UInt32.size, hmany⟩) ?_ fun k hk =>
      LoopInfo.exists_ofDraft_eq_ok (h.placed_loop k) hk k.isLt.le
    have hid : (d.loops.get ⟨UInt32.size, hmany⟩).id = .ofIndex UInt32.size := (h.placed_loop _).id
    rw [LoopInfo.ofDraft_of_index_ne (hid ▸ NodeId.index_ofIndex_size_ne .loop), hid]
    rfl
  rw [Function.ofDraft, hcollected, hloops]
  rfl

variable (hloops : d.loops.length ≤ UInt32.size)
include hloops

-- The regions are of no concern to the loops.
theorem exists_loops_eq_ok : ∃ loops, LoopNesting.ofDrafts d.blocks.length d.loops = .ok loops := by
  let bare : FunctionDraft := { d with regions := [] }
  have hbare : bare.IsOrderly := ⟨h.blocks, h.loops, nofun⟩
  have hfits : bare.FitsIds := by
    intro kind
    cases kind with
    | block => exact hblocks
    | loop => exact hloops
    | region => exact Nat.zero_le _
  refine exists_ok_of_ne_error fun e he => ?_
  have hnot := LoopNesting.not_meets_of_ofDrafts_eq_error (d := bare) he
  have hrequirement := LoopNesting.requirement_of_ofDrafts_eq_error he
  refine hnot (hbare.meets hfits fun hmem => ?_)
  revert hrequirement hmem
  cases e.requirement <;> decide

theorem ofDraft_of_regions {e : Defect} (hne : d.regions ≠ [])
    (he : collect d.regions.length (fun i =>
      RegionInfo.ofDraft d.blocks.length d.regions i (d.regions.get i)) = .error e) :
    Function.ofDraft d = .error ⟨d.name, e⟩ := by
  obtain ⟨blocks, hcollected⟩ := h.exists_collect_blocks_eq_ok hblocks
  obtain ⟨loops, hnested⟩ := h.exists_loops_eq_ok hblocks hloops
  rw [Function.ofDraft, hcollected, hnested, RegionNesting.ofDrafts_of_collect he]
  exact congrArg (Except.mapError _) (if_neg hne)

theorem ofDraft_of_surplus_region (hmany : UInt32.size < d.regions.length)
    (hknown : d.withoutSurplus.Meets .knownRegions) :
    Function.ofDraft d = .error ⟨d.name, .misnumberedRegion UInt32.size ⟨0⟩⟩ := by
  refine h.ofDraft_of_regions hblocks hloops (List.ne_nil_of_length_pos (by omega)) ?_
  refine collect_eq_error_of_first (i := ⟨UInt32.size, hmany⟩) ?_ fun k hk =>
    exists_ok_of_ne_error fun e he => ?_
  · have hid : (d.regions.get ⟨UInt32.size, hmany⟩).id = .ofIndex UInt32.size :=
      (h.placed_region _).id
    rw [RegionInfo.ofDraft_of_index_ne (hid ▸ NodeId.index_ofIndex_size_ne .region), hid]
    rfl
  · obtain ⟨p, hp, hbad, -⟩ := RegionInfo.parent_of_ofDraft_eq_error (h.placed_region k) hk he
    have hget : d.withoutSurplus.regions[k.val]? = some (d.regions.get k) := by
      rw [getElem?_withoutSurplus hk]
      simp
    obtain ⟨q, hq, hsame⟩ := hknown _ (List.mem_of_getElem? hget) p hp
    rw [getElem?_withoutSurplus (((h.placed_region k).parent p hp).trans hk)] at hq
    exact hbad q hq hsame

theorem ofDraft_of_mixed_region (hunknown : ¬d.withoutSurplus.Meets .knownRegions) :
    ∃ id p, Function.ofDraft d = .error ⟨d.name, .regionParent id p⟩ := by
  simp only [Meets, not_forall] at hunknown
  obtain ⟨r, hr, p, hp, hnone⟩ := hunknown
  obtain ⟨i, hi⟩ := List.mem_iff_getElem?.mp hr
  have hfew : i < UInt32.size := by
    have hlt := (List.getElem?_eq_some_iff.mp hi).1
    exact hlt.trans_le (List.length_take_le _ _)
  rw [getElem?_withoutSurplus hfew] at hi
  obtain ⟨hlt, rfl⟩ := List.getElem?_eq_some_iff.mp hi
  let check (k : Fin d.regions.length) :=
    RegionInfo.ofDraft d.blocks.length d.regions k (d.regions.get k)
  cases hcheck : check ⟨i, hlt⟩ with
  | ok node =>
      obtain ⟨q, hq, hsame⟩ := RegionInfo.exists_parent_of_ofDraft hcheck hp
      have hparent := (h.placed_region ⟨i, hlt⟩).parent p hp
      exact absurd ⟨q, (getElem?_withoutSurplus (hparent.trans hfew)).trans hq, hsame⟩ hnone
  | error e =>
      obtain ⟨k, hle, e', hk, hall⟩ := exists_collect_eq_error hcheck
      have hkfew : k.val < UInt32.size := Nat.lt_of_le_of_lt hle hfew
      obtain ⟨q, -, -, rfl⟩ :=
        RegionInfo.parent_of_ofDraft_eq_error (h.placed_region k) hkfew hk
      have hne : d.regions ≠ [] := List.ne_nil_of_length_pos (by omega)
      exact ⟨_, q, h.ofDraft_of_regions hblocks hloops hne hall⟩

end IsOrderly

end FunctionDraft

namespace Session

def added (s : Session) (kind : NodeKind) : Nat := (s.edits.filterMap Edit.added?).count kind

-- What comes of a session with more nodes of a kind than there are ids. The ids start again from
-- zero, so the first node that has none of its own is reported: a block before a loop, and a loop
-- before a region. A region in front of it that names a detached parent is reported in its place.
structure Refusal (s : Session) (built : Except ModelError Function) : Prop where
  block : UInt32.size < s.added .block →
    built = .error ⟨s.draft.name, .misnumberedBlock UInt32.size ⟨0⟩⟩
  loop : s.added .block ≤ UInt32.size → UInt32.size < s.added .loop →
    built = .error ⟨s.draft.name, .misnumberedLoop UInt32.size ⟨0⟩⟩
  region : s.added .block ≤ UInt32.size → s.added .loop ≤ UInt32.size →
    UInt32.size < s.added .region → s.draft.withoutSurplus.Meets .knownRegions →
      built = .error ⟨s.draft.name, .misnumberedRegion UInt32.size ⟨0⟩⟩
  regionParent : s.added .block ≤ UInt32.size → s.added .loop ≤ UInt32.size →
    ¬s.draft.withoutSurplus.Meets .knownRegions →
      ∃ id p, built = .error ⟨s.draft.name, .regionParent id p⟩

theorem IsOrderly.refusal {s : Session} (hs : s.IsOrderly) :
    s.Refusal (Function.ofDraft s.draft) := by
  have hblocks : s.draft.blocks.length = s.added .block := hs.count .block
  have hloops : s.draft.loops.length = s.added .loop := hs.count .loop
  have hregions : s.draft.regions.length = s.added .region := hs.count .region
  constructor
  · rw [← hblocks]
    exact hs.draft.ofDraft_of_surplus_block
  · rw [← hblocks, ← hloops]
    exact hs.draft.ofDraft_of_surplus_loop
  · rw [← hblocks, ← hloops, ← hregions]
    exact hs.draft.ofDraft_of_surplus_region
  · rw [← hblocks, ← hloops]
    exact hs.draft.ofDraft_of_mixed_region

-- Such a session goes through to its end all the same.
theorem refusal_of_refers {name : String} {edits : List Edit}
    (hrefers : (start name).Refers edits) :
    ∃ s, (start name).run edits = .ok s ∧ s.draft.name = name ∧ s.edits = edits ∧
      s.Refusal (Function.ofDraft s.draft) := by
  obtain ⟨s, hrun, hs, hname, hedits⟩ := exists_run (isOrderly_start name) hrefers
  exact ⟨s, hrun, hname, hedits, hs.refusal⟩

theorem refers_replicate_addBlock (s : Session) (n : Nat) (lines : List UInt32) :
    s.Refers (List.replicate n (.addBlock lines)) := by
  induction n generalizing s with
  | zero => trivial
  | succ n ih => exact ⟨nofun, fun t _ => ih t⟩

theorem refused_of_surplus_blocks (name : String) {n : Nat} (hmany : UInt32.size < n) :
    ∃ s, (start name).run (List.replicate n (.addBlock [])) = .ok s ∧
      Function.ofDraft s.draft = .error ⟨name, .misnumberedBlock UInt32.size ⟨0⟩⟩ := by
  obtain ⟨s, hrun, rfl, hedits, hrefusal⟩ :=
    refusal_of_refers (refers_replicate_addBlock (start name) n [])
  refine ⟨s, hrun, hrefusal.block ?_⟩
  have hadded : Edit.added? (.addBlock []) = some .block := rfl
  rw [added, hedits, List.filterMap_replicate_of_some hadded, List.count_replicate_self]
  exact hmany

end Session

end LoopPragma
