import LoopPragma.Proofs.Model.Validation

namespace LoopPragma

open Relation Nesting

section Named

variable {kind : NodeKind} {n : Nat}

theorem SameParents.leadsToCycle_iff {ids : List (Option (NodeId kind))}
    {parents : Vector (Option (Fin n)) n} (h : SameParents ids parents) {i : Nat} :
    LeadsToCycle (NamesParent ids) i ↔ ∃ hi : i < n, LeadsToCycle (IsParent parents) ⟨i, hi⟩ := by
  constructor
  · rintro ⟨c, hic, hcc⟩
    obtain ⟨hc, _, hcycle⟩ := h.transGen_iff.mp hcc
    rcases reflTransGen_iff_eq_or_transGen.mp hic with rfl | hic
    · exact ⟨hc, _, .refl, hcycle⟩
    · obtain ⟨hi, _, hclimb⟩ := h.transGen_iff.mp hic
      exact ⟨hi, _, hclimb.to_reflTransGen, hcycle⟩
  · rintro ⟨hi, c, hic, hcc⟩
    have hlink (a b : Fin n) (hab : IsParent parents a b) : NamesParent ids a b :=
      h.namesParent_iff.mpr ⟨a.isLt, b.isLt, hab⟩
    exact ⟨c, hic.lift Fin.val hlink, hcc.lift Fin.val hlink⟩

structure IsFirstBelowCycle (r : Nat → Nat → Prop) (i : Nat) : Prop where
  leads : LeadsToCycle r i
  first : ∀ k < i, ¬LeadsToCycle r k

-- A position that is not on a cycle itself lies below one of later positions.
theorem IsFirstBelowCycle.own_or_later {r : Nat → Nat → Prop} {i : Nat}
    (h : IsFirstBelowCycle r i) :
    TransGen r i i ∨ ∃ c, i < c ∧ TransGen r i c ∧ TransGen r c c := by
  obtain ⟨c, hic, hcc⟩ := h.leads
  rcases reflTransGen_iff_eq_or_transGen.mp hic with rfl | hic
  · exact Or.inl hcc
  · have hle : i ≤ c := Nat.le_of_not_lt fun hlt => h.first c hlt ⟨c, .refl, hcc⟩
    rcases Nat.eq_or_lt_of_le hle with rfl | hlt
    · exact Or.inl hcc
    · exact Or.inr ⟨c, hlt, hic, hcc⟩

theorem SameParents.isFirstBelowCycle {ids : List (Option (NodeId kind))}
    {parents : Vector (Option (Fin n)) n} (h : SameParents ids parents) {i : Fin n}
    (hi : ofParents parents = .error i) : IsFirstBelowCycle (NamesParent ids) i := by
  obtain ⟨hcycle, hfirst⟩ := ofParents_eq_error_iff.mp hi
  refine ⟨h.leadsToCycle_iff.mpr ⟨i.isLt, hcycle⟩, fun k hk hbelow => ?_⟩
  obtain ⟨hlt, hbelow⟩ := h.leadsToCycle_iff.mp hbelow
  exact hfirst ⟨k, hlt⟩ hk hbelow

theorem NodeId.ofFin_eq {i : Fin n} {id : NodeId kind} (h : id.index = i.val) : .ofFin i = id := by
  rw [ofFin, ← h, ofIndex_index]

end Named

section Drafts

variable {numBlocks : Nat}

theorem LoopNesting.isFirstBelowCycle {drafts : List LoopDraft} {id : LoopId}
    (h : ofDrafts numBlocks drafts = .error (.loopCycle id)) :
    (drafts.map LoopDraft.id)[id.index]? = some id ∧
      IsFirstBelowCycle (NamesParent (drafts.map LoopDraft.parent)) id.index := by
  unfold ofDrafts at h
  split at h
  · next hcollect =>
      obtain ⟨i, hi, -⟩ := collect_eq_error hcollect
      have hother := LoopInfo.ofDraft_eq_error hi
      cases h
      simp at hother
  · next nodes hnodes =>
      split at h
      · next i hi =>
          cases h
          have hindex := LoopInfo.index_of_ofDraft (collect_eq_ok hnodes i)
          rw [NodeId.ofFin_eq hindex, hindex]
          exact ⟨by simp, (sameParents_of_collect hnodes).isFirstBelowCycle hi⟩
      · cases h

theorem RegionNesting.isFirstBelowCycle {drafts : List RegionDraft} {id : RegionId}
    (h : ofDrafts numBlocks drafts = .error (.regionCycle id)) :
    (drafts.map RegionDraft.id)[id.index]? = some id ∧
      IsFirstBelowCycle (NamesParent (drafts.map RegionDraft.parent)) id.index := by
  unfold ofDrafts at h
  split at h
  · next hcollect =>
      obtain ⟨i, hi, -⟩ := collect_eq_error hcollect
      have hother := RegionInfo.ofDraft_eq_error hi
      cases h
      simp at hother
  · next nodes hnodes =>
      split at h
      · next i hi =>
          cases h
          have hindex := RegionInfo.index_of_ofDraft (collect_eq_ok hnodes i)
          rw [NodeId.ofFin_eq hindex, hindex]
          exact ⟨by simp, (sameParents_of_collect hnodes).isFirstBelowCycle hi⟩
      · dsimp only at h
        split at h <;> cases h

end Drafts

-- What is said to be nested inside itself is the first loop or region with a cycle above it. It is
-- its own ancestor, or stands in front of those that are.
theorem ofDrafts_names_first_below_cycle (numBlocks : Nat) :
    (∀ (drafts : List LoopDraft) (id : LoopId),
      LoopNesting.ofDrafts numBlocks drafts = .error (.loopCycle id) →
      let r := NamesParent (drafts.map LoopDraft.parent)
      (drafts.map LoopDraft.id)[id.index]? = some id ∧ IsFirstBelowCycle r id.index ∧
        (TransGen r id.index id.index ∨
          ∃ c, id.index < c ∧ TransGen r id.index c ∧ TransGen r c c)) ∧
    ∀ (drafts : List RegionDraft) (id : RegionId),
      RegionNesting.ofDrafts numBlocks drafts = .error (.regionCycle id) →
      let r := NamesParent (drafts.map RegionDraft.parent)
      (drafts.map RegionDraft.id)[id.index]? = some id ∧ IsFirstBelowCycle r id.index ∧
        (TransGen r id.index id.index ∨
          ∃ c, id.index < c ∧ TransGen r id.index c ∧ TransGen r c c) := by
  constructor
  · intro drafts id h
    obtain ⟨hstands, hfirst⟩ := LoopNesting.isFirstBelowCycle h
    exact ⟨hstands, hfirst, hfirst.own_or_later⟩
  · intro drafts id h
    obtain ⟨hstands, hfirst⟩ := RegionNesting.isFirstBelowCycle h
    exact ⟨hstands, hfirst, hfirst.own_or_later⟩

section Tail

-- Two nodes, the second one inside itself and the first one inside the second.
def tailParents (kind : NodeKind) : List (Option (NodeId kind)) := [some ⟨1⟩, some ⟨1⟩]

def tailLoops : List LoopDraft :=
  [{ id := ⟨0⟩, header := ⟨0⟩, latch := some ⟨0⟩, blocks := [⟨0⟩], parent := some ⟨1⟩ },
    { id := ⟨1⟩, header := ⟨1⟩, latch := some ⟨1⟩, blocks := [⟨1⟩], parent := some ⟨1⟩ }]

def tailRegions : List RegionDraft :=
  [{ id := ⟨0⟩, parent := some ⟨1⟩, entering := some ⟨0⟩, blocks := [⟨0⟩] },
    { id := ⟨1⟩, parent := some ⟨1⟩, entering := some ⟨0⟩, blocks := [⟨0⟩] }]

theorem eq_error_of_map {ε α : Type} {x : Except ε α} {e : ε}
    (h : x.map (fun _ => ()) = .error e) : x = .error e := by
  cases x with
  | error e' => simpa [Except.map] using h
  | ok a => cases h

theorem loopCycle_tailLoops : LoopNesting.ofDrafts 2 tailLoops = .error (.loopCycle ⟨0⟩) :=
  eq_error_of_map (by decide +kernel)

theorem regionCycle_tailRegions :
    RegionNesting.ofDrafts 1 tailRegions = .error (.regionCycle ⟨0⟩) :=
  eq_error_of_map (by decide +kernel)

variable {kind : NodeKind}

theorem eq_one_of_tailParents {i p : Nat} (h : TransGen (NamesParent (tailParents kind)) i p) :
    p = 1 := by
  have hlink {j q : Nat} (hq : NamesParent (tailParents kind) j q) : q = 1 := by
    obtain ⟨id, hid, rfl⟩ := hq
    have hmem := List.mem_of_getElem? hid
    simp only [tailParents, List.mem_cons, List.not_mem_nil, or_false, or_self,
      Option.some_inj] at hmem
    rw [hmem]
    rfl
  cases h with
  | single hp => exact hlink hp
  | tail _ hp => exact hlink hp

theorem not_own_tailParents : ¬TransGen (NamesParent (tailParents kind)) 0 0 :=
  fun h => absurd (eq_one_of_tailParents h) (by decide)

theorem own_tailParents : TransGen (NamesParent (tailParents kind)) 1 1 :=
  .single ⟨⟨1⟩, rfl, rfl⟩

end Tail

-- The tail is named, and only the other node is inside itself.
theorem tail_named_for_cycle :
    (LoopNesting.ofDrafts 2 tailLoops = .error (.loopCycle ⟨0⟩) ∧
      ¬TransGen (NamesParent (tailLoops.map LoopDraft.parent)) 0 0 ∧
      TransGen (NamesParent (tailLoops.map LoopDraft.parent)) 1 1) ∧
    RegionNesting.ofDrafts 1 tailRegions = .error (.regionCycle ⟨0⟩) ∧
      ¬TransGen (NamesParent (tailRegions.map RegionDraft.parent)) 0 0 ∧
      TransGen (NamesParent (tailRegions.map RegionDraft.parent)) 1 1 :=
  ⟨⟨loopCycle_tailLoops, not_own_tailParents, own_tailParents⟩, regionCycle_tailRegions,
    not_own_tailParents, own_tailParents⟩

theorem tail_stands_before_cycle :
    (∃ c, 0 < c ∧ TransGen (NamesParent (tailLoops.map LoopDraft.parent)) 0 c ∧
      TransGen (NamesParent (tailLoops.map LoopDraft.parent)) c c) ∧
    ∃ c, 0 < c ∧ TransGen (NamesParent (tailRegions.map RegionDraft.parent)) 0 c ∧
      TransGen (NamesParent (tailRegions.map RegionDraft.parent)) c c := by
  obtain ⟨-, -, hloop⟩ :=
    (ofDrafts_names_first_below_cycle 2).1 tailLoops ⟨0⟩ loopCycle_tailLoops
  obtain ⟨-, -, hregion⟩ :=
    (ofDrafts_names_first_below_cycle 1).2 tailRegions ⟨0⟩ regionCycle_tailRegions
  exact ⟨hloop.resolve_left not_own_tailParents, hregion.resolve_left not_own_tailParents⟩

end LoopPragma
