import LoopPragma.Proofs.Model.Validation

namespace LoopPragma

def LoopDraft.completed (d : LoopDraft) : LoopDraft :=
  if d.header ∈ d.blocks then d else { d with blocks := d.header :: d.blocks }

def FunctionDraft.completed (d : FunctionDraft) : FunctionDraft :=
  { d with
    loops := d.loops.map LoopDraft.completed
    regions :=
      if d.regions = [] then [{ id := .ofIndex 0, blocks := d.blocks.map BlockDraft.id }]
      else d.regions }

def Function.draft (f : Function) : FunctionDraft where
  name := f.name
  linkage := f.linkage
  blocks := f.allBlocks.map fun b => { toBlock := f.blocks.get b, id := .ofFin b }
  loops := (List.finRange f.loops.size).map f.loops.draft
  regions := (List.finRange f.regions.size).map f.regions.draft

namespace NodeId

variable {kind : NodeKind} {n : Nat} {ε : Type}

theorem ofFin_of_index {id : NodeId kind} {i : Fin n} (h : id.index = i.val) : ofFin i = id := by
  rw [ofFin, ← h, ofIndex_index]

section Resolved

variable {resolve : NodeId kind → Except ε (Fin n)}
  (hresolve : ∀ id i, resolve id = .ok i ↔ id.index = i.val)

include hresolve

theorem map_ofFin_of_optionMapM {id : Option (NodeId kind)} {position : Option (Fin n)}
    (h : id.mapM resolve = .ok position) : position.map ofFin = id := by
  rcases optionMapM_eq_ok.mp h with ⟨rfl, rfl⟩ | ⟨id, i, rfl, hi, rfl⟩
  · rfl
  · rw [Option.map_some, ofFin_of_index ((hresolve id i).mp hi)]

theorem map_ofFin_of_mapM {ids : List (NodeId kind)} {positions : List (Fin n)}
    (h : ids.mapM resolve = .ok positions) : positions.map ofFin = ids := by
  have hmap := map_eq_of_listMapM_eq_ok (g := ofFin) (k := id)
    (fun id i hi => ofFin_of_index ((hresolve id i).mp hi)) h
  rwa [List.map_id] at hmap

theorem mem_iff_exists_of_mapM {ids : List (NodeId kind)} {positions : List (Fin n)}
    (h : ids.mapM resolve = .ok positions) {i : Fin n} :
    i ∈ positions ↔ ∃ id ∈ ids, id.index = i.val := by
  constructor
  · intro hi
    have hmem : Except.ok i ∈ ids.map resolve := listMapM_eq_ok h ▸ List.mem_map_of_mem hi
    obtain ⟨id, hid, hok⟩ := List.mem_map.mp hmem
    exact ⟨id, hid, (hresolve id i).mp hok⟩
  · rintro ⟨id, hid, hindex⟩
    obtain ⟨other, hother, hok⟩ := exists_of_listMapM_eq_ok h hid
    have hval : other.val = i.val := ((hresolve id other).mp hok).symm.trans hindex
    exact Fin.ext hval ▸ hother

theorem mem_iff_of_mapM {ids : List (NodeId kind)} {positions : List (Fin n)}
    (h : ids.mapM resolve = .ok positions) {id : NodeId kind} {i : Fin n}
    (hid : id.index = i.val) : i ∈ positions ↔ id ∈ ids := by
  rw [mem_iff_exists_of_mapM hresolve h]
  constructor
  · rintro ⟨other, hother, hindex⟩
    exact index_inj.mp (hindex.trans hid.symm) ▸ hother
  · intro hmem
    exact ⟨id, hmem, hid⟩

end Resolved

end NodeId

open NodeId

variable {numBlocks count position : Nat}

section Loops

variable {d : LoopDraft}

theorem LoopInfo.draft_of_ofDraft {info : LoopInfo numBlocks} {parent : Option (Fin count)}
    (h : ofDraft numBlocks count position d = .ok (info, parent)) :
    { id := .ofIndex position, header := .ofFin info.header, latch := info.latch.map .ofFin,
      blocks := info.blocks.toList.map .ofFin, parent := parent.map .ofFin,
      startLine := info.startLine : LoopDraft } = d.completed := by
  have hi := index_of_ofDraft h
  have hid : ofIndex position = d.id := by rw [← hi, ofIndex_index]
  simp only [ofDraft, hi, ne_eq, not_true_eq_false, if_false, bind_eq_ok,
    pure, Except.pure, Except.ok.injEq, Prod.mk.injEq] at h
  obtain ⟨header, hheader, latch, hlatch, blocks, hblocks, p, hp, rfl, rfl⟩ := h
  have hheader := NodeId.resolveWith_eq_ok.mp hheader
  have hlatch := map_ofFin_of_optionMapM (fun _ _ => NodeId.resolveWith_eq_ok) hlatch
  have hparent := map_ofFin_of_optionMapM (fun _ _ => NodeId.resolveWith_eq_ok) hp
  have hmem := mem_iff_of_mapM (fun _ _ => NodeId.resolveWith_eq_ok) hblocks hheader
  have hblocks := map_ofFin_of_mapM (fun _ _ => NodeId.resolveWith_eq_ok) hblocks
  have hheader := ofFin_of_index hheader
  dsimp only
  rw [hid, hheader, hlatch, hparent, LoopDraft.completed, withHeader]
  by_cases hb : header ∈ blocks
  · rw [if_pos (hmem.mp hb), if_pos (List.contains_iff_mem.mpr hb), hblocks]
  · rw [if_neg (fun hd => hb (hmem.mpr hd)), if_neg (by simpa using hb), List.map_cons, hheader,
      hblocks]

theorem LoopNesting.draft_of_ofDrafts {drafts : List LoopDraft} {L : LoopNesting numBlocks}
    (h : ofDrafts numBlocks drafts = .ok L) :
    (List.finRange L.size).map L.draft = drafts.map LoopDraft.completed := by
  unfold ofDrafts at h
  split at h
  · cases h
  · rename_i nodes hnodes
    split at h
    · cases h
    · rename_i N hN
      cases h
      conv_rhs => rw [← List.map_get_finRange drafts, List.map_map]
      refine List.map_congr_left fun i _ => ?_
      have hinfo : (nodes.map Prod.fst).get i = (nodes.get i).1 :=
        Vector.getElem_map Prod.fst i.isLt
      rw [Function.comp_apply, ← LoopInfo.draft_of_ofDraft (collect_eq_ok hnodes i)]
      simp only [LoopNesting.draft, LoopNesting.info, hinfo, Nesting.parent_of_nodes hN]
      rfl

end Loops

section Regions

variable {d : RegionDraft} {drafts : List RegionDraft}

theorem RegionInfo.draft_of_ofDraft {info : RegionInfo numBlocks}
    {parent : Option (Fin drafts.length)}
    (h : ofDraft numBlocks drafts position d = .ok (info, parent)) :
    { id := .ofIndex position, parent := parent.map .ofFin, entering := info.entering.map .ofFin,
      blocks := info.blocks.toList.map .ofFin, detached := info.detached : RegionDraft } = d := by
  have hi := index_of_ofDraft h
  have hid : ofIndex position = d.id := by rw [← hi, ofIndex_index]
  simp only [ofDraft, hi, ne_eq, not_true_eq_false, if_false, bind_eq_ok,
    pure, Except.pure, Except.ok.injEq, Prod.mk.injEq] at h
  obtain ⟨entering, hentering, blocks, hblocks, p, hp, rfl, rfl⟩ := h
  have hentering := map_ofFin_of_optionMapM (fun _ _ => NodeId.resolveWith_eq_ok) hentering
  have hblocks := map_ofFin_of_mapM (fun _ _ => NodeId.resolveWith_eq_ok) hblocks
  have hparent : p.map ofFin = d.parent := by
    rcases optionMapM_eq_ok.mp hp with ⟨hnone, rfl⟩ | ⟨id, i, hid, hi, rfl⟩
    · exact hnone.symm
    · rw [hid, Option.map_some, ofFin_of_index (parentOf_eq_ok hi)]
  dsimp only
  rw [hid, hentering, hparent, hblocks]

theorem RegionNesting.draft_of_ofDrafts {R : RegionNesting numBlocks}
    (h : ofDrafts numBlocks drafts = .ok R) : (List.finRange R.size).map R.draft = drafts := by
  unfold ofDrafts at h
  split at h
  · cases h
  · rename_i nodes hnodes
    split at h
    · cases h
    · rename_i N hN
      dsimp only at h
      split at h
      · cases h
      · cases h
        conv_rhs => rw [← List.map_get_finRange drafts]
        refine List.map_congr_left fun i _ => ?_
        have hinfo : (nodes.map Prod.fst).get i = (nodes.get i).1 :=
          Vector.getElem_map Prod.fst i.isLt
        rw [← RegionInfo.draft_of_ofDraft (collect_eq_ok hnodes i)]
        simp only [RegionNesting.draft, RegionNesting.info, hinfo, Nesting.parent_of_nodes hN]
        rfl
      · cases h

theorem RegionNesting.draft_flat (numBlocks : Nat) :
    (List.finRange (flat numBlocks).size).map (flat numBlocks).draft =
      [{ id := .ofIndex 0, blocks := (List.finRange numBlocks).map .ofFin }] :=
  rfl

end Regions

namespace Function

variable {d : FunctionDraft}

theorem draft_of_checkBlock {i : Fin numBlocks} {d : BlockDraft} {b : Block}
    (h : checkBlock i.val d = .ok b) : { toBlock := b, id := .ofFin i : BlockDraft } = d := by
  have hindex := checkBlock_eq_ok h
  rw [checkBlock, if_pos hindex] at h
  cases h
  rw [ofFin_of_index hindex]

-- Nothing of a draft is lost, so its ids are the positions of the checked function.
theorem draft_of_ofDraft {f : Function} (h : ofDraft d = .ok f) : f.draft = d.completed := by
  rw [ofDraft, mapError_eq_ok] at h
  simp only [bind_eq_ok] at h
  obtain ⟨blocks, hblocks, loops, hloops, h⟩ := h
  have hloopDrafts := LoopNesting.draft_of_ofDrafts hloops
  have hblockDrafts : (List.finRange d.blocks.length).map
      (fun b => { toBlock := blocks.get b, id := .ofFin b : BlockDraft }) = d.blocks := by
    conv_rhs => rw [← List.map_get_finRange d.blocks]
    exact List.map_congr_left fun i _ => draft_of_checkBlock (collect_eq_ok hblocks i)
  split at h
  · rename_i hnil
    obtain ⟨regions, hregions, hf⟩ := bind_eq_ok.mp h
    cases hregions
    cases hf
    have hids : (List.finRange d.blocks.length).map ofFin = d.blocks.map BlockDraft.id := by
      have hmap := congrArg (List.map BlockDraft.id) hblockDrafts
      rwa [List.map_map] at hmap
    rw [draft, FunctionDraft.completed, if_pos hnil, ← hloopDrafts, ← hids]
    dsimp only
    rw [RegionNesting.draft_flat]
    exact congrArg (fun blocks => ({ d with blocks, loops := _, regions := _ } : FunctionDraft))
      hblockDrafts
  · rename_i hne
    obtain ⟨regions, hregions, hf⟩ := bind_eq_ok.mp h
    cases hf
    have hregionDrafts := RegionNesting.draft_of_ofDrafts hregions
    rw [draft, FunctionDraft.completed, if_neg hne, ← hloopDrafts]
    dsimp only
    rw [hregionDrafts]
    exact congrArg (fun blocks => ({ d with blocks, loops := _ } : FunctionDraft)) hblockDrafts

end Function

theorem Program.draft_of_ofDraft {d : ProgramDraft} {p : Program} (h : Program.ofDraft d = .ok p) :
    p.functions.map Function.draft = d.functions.map FunctionDraft.completed := by
  unfold ofDraft at h
  split at h
  · cases h
  · rename_i functions hmap
    split at h
    · cases h
    · cases h
      exact map_eq_of_listMapM_eq_ok (fun _ _ hf => Function.draft_of_ofDraft hf) hmap

end LoopPragma
