import LoopPragma.Model.Program
import LoopPragma.Proofs.Model.Checks
import LoopPragma.Proofs.Model.Requirement
import LoopPragma.Proofs.Nesting.Cycles

namespace LoopPragma

open Relation

section Parents

variable {kind : NodeKind} {n : Nat}

-- Positions in the draft and nodes of the nesting have the same parents.
def SameParents (ids : List (Option (NodeId kind))) (parents : Vector (Option (Fin n)) n) : Prop :=
  ids.map (Option.map NodeId.index) = parents.toList.map (Option.map Fin.val)

variable {ids : List (Option (NodeId kind))} {parents : Vector (Option (Fin n)) n}

theorem SameParents.namesParent_iff (h : SameParents ids parents) {i p : Nat} :
    NamesParent ids i p ↔
      ∃ (hi : i < n) (hp : p < n), Nesting.IsParent parents ⟨i, hi⟩ ⟨p, hp⟩ := by
  have hget : (ids[i]?).map (Option.map NodeId.index) =
      (parents.toList[i]?).map (Option.map Fin.val) := by
    simpa only [List.getElem?_map] using congrArg (·[i]?) h
  constructor
  · rintro ⟨id, hid, rfl⟩
    rw [hid] at hget
    obtain ⟨parent, hparent, hp⟩ := Option.map_eq_some_iff.mp hget.symm
    obtain ⟨hi, rfl⟩ := List.getElem?_eq_some_iff.mp hparent
    obtain ⟨q, hq, hval⟩ := Option.map_eq_some_iff.mp hp
    have hi : i < n := by simpa using hi
    have hlt : id.index < n := hval ▸ q.isLt
    refine ⟨hi, hlt, ?_⟩
    have hq' : q = ⟨id.index, hlt⟩ := Fin.ext hval
    rw [← hq']
    exact (Vector.getElem_toList _).symm.trans hq
  · rintro ⟨hi, hp, hparent⟩
    have hlist : parents.toList[i]? = some (some ⟨p, hp⟩) := by
      rw [List.getElem?_eq_some_iff]
      exact ⟨by simpa using hi, (Vector.getElem_toList _).trans hparent⟩
    rw [hlist] at hget
    obtain ⟨id, hid, hval⟩ := Option.map_eq_some_iff.mp hget
    obtain ⟨b, rfl, hb⟩ := Option.map_eq_some_iff.mp hval
    exact ⟨b, hid, hb⟩

theorem SameParents.transGen_iff (h : SameParents ids parents) {i p : Nat} :
    TransGen (NamesParent ids) i p ↔
      ∃ (hi : i < n) (hp : p < n), TransGen (Nesting.IsParent parents) ⟨i, hi⟩ ⟨p, hp⟩ := by
  constructor
  · intro htrans
    induction htrans with
    | single hp =>
        obtain ⟨hi, hp, hparent⟩ := h.namesParent_iff.mp hp
        exact ⟨hi, hp, .single hparent⟩
    | tail _ hp ih =>
        obtain ⟨hi, _, hmid⟩ := ih
        obtain ⟨_, hp, hparent⟩ := h.namesParent_iff.mp hp
        exact ⟨hi, hp, hmid.tail hparent⟩
  · rintro ⟨hi, hp, htrans⟩
    exact htrans.lift Fin.val fun a b hab => h.namesParent_iff.mpr ⟨a.isLt, b.isLt, hab⟩

theorem sameParents_map {α β : Type} {drafts : List α} {parent : α → Option (NodeId kind)}
    {nodes : Vector (β × Option (Fin drafts.length)) drafts.length}
    (h : ∀ i, (parent (drafts.get i)).map NodeId.index = (nodes.get i).2.map Fin.val) :
    SameParents (drafts.map parent) (nodes.map Prod.snd) := by
  apply List.ext_getElem
  · simp
  · intro i hi _
    have hlt : i < drafts.length := by simpa using hi
    have hget : nodes.get ⟨i, hlt⟩ = nodes[i] := rfl
    simpa [hget] using h ⟨i, hlt⟩

theorem Nesting.parent_of_nodes {α : Type} {nodes : Vector (α × Option (Fin n)) n} {N : Nesting n}
    (hN : Nesting.ofParents (nodes.map Prod.snd) = .ok N) (i : Fin n) :
    N.parent i = (nodes.get i).2 := by
  rw [Nesting.parent, Nesting.parents_of_ofParents hN]
  exact Vector.getElem_map Prod.snd i.isLt

theorem SameParents.acyclic_iff (h : SameParents ids parents) :
    Acyclic ids ↔ ∃ N, Nesting.ofParents parents = .ok N := by
  rw [Nesting.exists_ofParents_eq_ok_iff]
  constructor
  · intro hacyclic i hi
    exact hacyclic i.val (h.transGen_iff.mpr ⟨i.isLt, i.isLt, hi⟩)
  · intro hacyclic i hi
    obtain ⟨hlt, _, hi⟩ := h.transGen_iff.mp hi
    exact hacyclic ⟨i, hlt⟩ hi

theorem SameParents.not_acyclic (h : SameParents ids parents) {i : Fin n}
    (hi : Nesting.ofParents parents = .error i) : ¬Acyclic ids := by
  intro hacyclic
  obtain ⟨N, hN⟩ := h.acyclic_iff.mp hacyclic
  rw [hN] at hi
  cases hi

end Parents

section Loops

variable {numBlocks count position : Nat} {d : LoopDraft}

theorem LoopInfo.ofDraft_eq_ok {info : LoopInfo numBlocks} {parent : Option (Fin count)}
    (h : ofDraft numBlocks count position d = .ok (info, parent)) :
    (∀ b ∈ d.references, b.index < numBlocks) ∧
      d.parent.map NodeId.index = parent.map Fin.val := by
  have hi := index_of_ofDraft h
  simp only [ofDraft, hi, ne_eq, not_true_eq_false, if_false, bind_eq_ok,
    NodeId.resolveWith_eq_ok, pure, Except.pure, Except.ok.injEq, Prod.mk.injEq] at h
  obtain ⟨header, hheader, latch, hlatch, blocks, hblocks, p, hp, -, rfl⟩ := h
  constructor
  · intro b hb
    rcases List.mem_cons.mp hb with rfl | hb
    · rw [hheader]
      exact header.isLt
    · rcases List.mem_append.mp hb with hb | hb
      · rcases optionMapM_eq_ok.mp hlatch with ⟨hnone, -⟩ | ⟨l, i, hl, hli, -⟩
        · simp [hnone] at hb
        · obtain rfl : b = l := by simpa [hl] using hb
          rw [NodeId.resolveWith_eq_ok] at hli
          omega
      · obtain ⟨i, -, hbi⟩ := exists_of_listMapM_eq_ok hblocks hb
        rw [NodeId.resolveWith_eq_ok] at hbi
        omega
  · rcases optionMapM_eq_ok.mp hp with ⟨hnone, rfl⟩ | ⟨id, i, hid, hi, rfl⟩
    · simp [hnone]
    · rw [NodeId.resolveWith_eq_ok] at hi
      simp [hid, hi]

theorem LoopInfo.ofDraft_of_index_ne (h : d.id.index ≠ position) :
    ofDraft numBlocks count position d = .error (.misnumberedLoop position d.id) := by
  simp only [ofDraft, h, ne_eq, not_false_eq_true, if_true, throw_bind]

theorem LoopInfo.ofDraft_eq_error {e : Defect}
    (h : ofDraft numBlocks count position d = .error e) :
    (d.id.index ≠ position ∧ e = .misnumberedLoop position d.id) ∨
      (∃ b ∈ d.references, numBlocks ≤ b.index ∧ e = .loopBlock d.id b) ∨
      ∃ p, d.parent = some p ∧ count ≤ p.index ∧ e = .loopParent d.id p := by
  by_cases hi : d.id.index = position
  · right
    simp only [ofDraft, hi, ne_eq, not_true_eq_false, if_false, bind_eq_error,
      NodeId.resolveWith_eq_error] at h
    rcases h with ⟨hb, rfl⟩ | ⟨_, -, h⟩
    · exact Or.inl ⟨d.header, List.mem_cons_self, hb, rfl⟩
    rcases h with h | ⟨_, -, h⟩
    · obtain ⟨b, hb, he⟩ := optionMapM_eq_error.mp h
      obtain ⟨hlt, rfl⟩ := NodeId.resolveWith_eq_error.mp he
      exact Or.inl ⟨b, by simp [LoopDraft.references, hb], hlt, rfl⟩
    rcases h with h | ⟨_, -, h⟩
    · obtain ⟨b, hb, he⟩ := listMapM_eq_error h
      obtain ⟨hlt, rfl⟩ := NodeId.resolveWith_eq_error.mp he
      exact Or.inl ⟨b, by simp [LoopDraft.references, hb], hlt, rfl⟩
    rcases h with h | ⟨_, -, h⟩
    · obtain ⟨p, hp, he⟩ := optionMapM_eq_error.mp h
      obtain ⟨hlt, rfl⟩ := NodeId.resolveWith_eq_error.mp he
      exact Or.inr ⟨p, hp, hlt, rfl⟩
    · simp [pure, Except.pure] at h
  · rw [ofDraft_of_index_ne hi] at h
    exact Or.inl ⟨hi, (Except.error.inj h).symm⟩

namespace LoopNesting

variable {drafts : List LoopDraft}

theorem sameParents_of_collect
    {nodes : Vector (LoopInfo numBlocks × Option (Fin drafts.length)) drafts.length}
    (h : collect drafts.length (fun i =>
      LoopInfo.ofDraft numBlocks drafts.length i (drafts.get i)) = .ok nodes) :
    SameParents (drafts.map LoopDraft.parent) (nodes.map Prod.snd) :=
  sameParents_map fun i => (LoopInfo.ofDraft_eq_ok (collect_eq_ok h i)).2

variable {d : FunctionDraft}

theorem ofDrafts_eq_ok {L : LoopNesting d.blocks.length}
    (h : ofDrafts d.blocks.length d.loops = .ok L) :
    Numbered (d.loops.map LoopDraft.id) ∧
      (∀ lp ∈ d.loops, ∀ b ∈ lp.references, b.index < d.blocks.length) ∧
      d.Meets .knownLoops ∧ d.Meets .acyclicLoops := by
  unfold ofDrafts at h
  split at h
  · cases h
  · rename_i nodes hnodes
    split at h
    · cases h
    · rename_i N hN
      have hinfo (i : Fin d.loops.length) := LoopInfo.ofDraft_eq_ok (collect_eq_ok hnodes i)
      refine ⟨?_, ?_, ?_, ?_⟩
      · exact numbered_map_iff.mpr fun i => LoopInfo.index_of_ofDraft (collect_eq_ok hnodes i)
      · intro lp hlp b hb
        obtain ⟨i, hi, rfl⟩ := List.getElem_of_mem hlp
        exact (hinfo ⟨i, hi⟩).1 b hb
      · intro lp hlp p hp
        obtain ⟨i, hi, rfl⟩ := List.getElem_of_mem hlp
        have hparent := (hinfo ⟨i, hi⟩).2
        simp only [List.get_eq_getElem, hp, Option.map_some] at hparent
        obtain ⟨q, -, hq⟩ := Option.map_eq_some_iff.mp hparent.symm
        rw [← hq]
        exact q.isLt
      · exact (sameParents_of_collect hnodes).acyclic_iff.mpr ⟨N, hN⟩

theorem not_meets_of_ofDrafts_eq_error {e : Defect}
    (h : ofDrafts d.blocks.length d.loops = .error e) : ¬d.Meets e.requirement := by
  unfold ofDrafts at h
  split at h
  · rename_i hcollect
    cases h
    obtain ⟨i, hi, -⟩ := collect_eq_error hcollect
    have hmem : d.loops.get i ∈ d.loops := List.getElem_mem i.isLt
    rcases LoopInfo.ofDraft_eq_error hi with ⟨hne, rfl⟩ | ⟨b, hb, hge, rfl⟩ | ⟨p, hp, hge, rfl⟩
    · rintro ⟨-, hnumbered, -⟩
      exact hne (numbered_map_iff.mp hnumbered i)
    · rintro ⟨hknown, -⟩
      have := hknown _ hmem b hb
      omega
    · intro hknown
      have := hknown _ hmem p hp
      omega
  · rename_i nodes hnodes
    split at h
    · rename_i i hi
      cases h
      exact (sameParents_of_collect hnodes).not_acyclic hi
    · cases h

end LoopNesting

end Loops

section Regions

variable {numBlocks position : Nat} {drafts : List RegionDraft} {d : RegionDraft}

namespace RegionInfo

theorem parentOf_eq_ok {p : RegionId} {i : Fin drafts.length} (h : parentOf drafts d p = .ok i) :
    p.index = i.val := by
  unfold parentOf at h
  split at h
  · cases h
  · rename_i k hk
    split at h
    · cases h
      exact NodeId.resolve_eq_ok.mp hk
    · cases h

theorem parentOf_eq_error {p : RegionId} {e : Defect} (h : parentOf drafts d p = .error e) :
    e = .regionParent d.id p ∧ ∀ q, drafts[p.index]? = some q → q.detached ≠ d.detached := by
  unfold parentOf at h
  split at h
  · rename_i hp
    cases h
    refine ⟨rfl, fun q hq => ?_⟩
    have hlt := (List.getElem?_eq_some_iff.mp hq).1
    have hge := (NodeId.resolve_eq_error.mp hp).1
    omega
  · rename_i i hi
    split at h
    · cases h
    · rename_i hne
      cases h
      refine ⟨rfl, fun q hq => ?_⟩
      rw [NodeId.resolve_eq_ok.mp hi] at hq
      obtain ⟨-, rfl⟩ := List.getElem?_eq_some_iff.mp hq
      exact hne

theorem ofDraft_eq_ok {info : RegionInfo numBlocks} {parent : Option (Fin drafts.length)}
    (h : ofDraft numBlocks drafts position d = .ok (info, parent)) :
    (∀ b ∈ d.references, b.index < numBlocks) ∧
      d.parent.map NodeId.index = parent.map Fin.val := by
  have hi := index_of_ofDraft h
  simp only [ofDraft, hi, ne_eq, not_true_eq_false, if_false, bind_eq_ok, pure, Except.pure,
    Except.ok.injEq, Prod.mk.injEq] at h
  obtain ⟨entering, hentering, blocks, hblocks, p, hp, -, rfl⟩ := h
  constructor
  · intro b hb
    rcases List.mem_append.mp hb with hb | hb
    · rcases optionMapM_eq_ok.mp hentering with ⟨hnone, -⟩ | ⟨l, i, hl, hli, -⟩
      · simp [hnone] at hb
      · obtain rfl : b = l := by simpa [hl] using hb
        rw [NodeId.resolveWith_eq_ok] at hli
        omega
    · obtain ⟨i, -, hbi⟩ := exists_of_listMapM_eq_ok hblocks hb
      rw [NodeId.resolveWith_eq_ok] at hbi
      omega
  · rcases optionMapM_eq_ok.mp hp with ⟨hnone, rfl⟩ | ⟨id, i, hid, hi, rfl⟩
    · simp [hnone]
    · simp [hid, parentOf_eq_ok hi]

theorem exists_parent_of_ofDraft {info : RegionInfo numBlocks}
    {parent : Option (Fin drafts.length)}
    (h : ofDraft numBlocks drafts position d = .ok (info, parent)) {p : RegionId}
    (hp : d.parent = some p) : ∃ q, drafts[p.index]? = some q ∧ q.detached = d.detached := by
  have hparent := (ofDraft_eq_ok h).2
  rw [hp, Option.map_some] at hparent
  obtain ⟨q, hnode, hq⟩ := Option.map_eq_some_iff.mp hparent.symm
  refine ⟨drafts.get q, ?_, (detached_of_ofDraft h).2 q hnode⟩
  rw [← hq]
  simp

theorem ofDraft_of_index_ne (h : d.id.index ≠ position) :
    ofDraft numBlocks drafts position d = .error (.misnumberedRegion position d.id) := by
  simp only [ofDraft, h, ne_eq, not_false_eq_true, if_true, throw_bind]

theorem ofDraft_eq_error {e : Defect} (h : ofDraft numBlocks drafts position d = .error e) :
    (d.id.index ≠ position ∧ e = .misnumberedRegion position d.id) ∨
      (∃ b ∈ d.references, numBlocks ≤ b.index ∧ e = .regionBlock d.id b) ∨
      ∃ p, d.parent = some p ∧ (∀ q, drafts[p.index]? = some q → q.detached ≠ d.detached) ∧
        e = .regionParent d.id p := by
  by_cases hi : d.id.index = position
  · right
    simp only [ofDraft, hi, ne_eq, not_true_eq_false, if_false, bind_eq_error] at h
    rcases h with h | ⟨_, -, h⟩
    · obtain ⟨b, hb, he⟩ := optionMapM_eq_error.mp h
      obtain ⟨hge, rfl⟩ := NodeId.resolveWith_eq_error.mp he
      exact Or.inl ⟨b, by simp [RegionDraft.references, hb], hge, rfl⟩
    rcases h with h | ⟨_, -, h⟩
    · obtain ⟨b, hb, he⟩ := listMapM_eq_error h
      obtain ⟨hge, rfl⟩ := NodeId.resolveWith_eq_error.mp he
      exact Or.inl ⟨b, by simp [RegionDraft.references, hb], hge, rfl⟩
    rcases h with h | ⟨_, -, h⟩
    · obtain ⟨p, hp, he⟩ := optionMapM_eq_error.mp h
      obtain ⟨rfl, hbad⟩ := parentOf_eq_error he
      exact Or.inr ⟨p, hp, hbad, rfl⟩
    · simp [pure, Except.pure] at h
  · rw [ofDraft_of_index_ne hi] at h
    exact Or.inl ⟨hi, (Except.error.inj h).symm⟩

end RegionInfo

namespace RegionNesting

section Collected

variable {nodes : Vector (RegionInfo numBlocks × Option (Fin drafts.length)) drafts.length}
  (h : collect drafts.length (fun i =>
    RegionInfo.ofDraft numBlocks drafts i (drafts.get i)) = .ok nodes)
include h

theorem sameParents_of_collect :
    SameParents (drafts.map RegionDraft.parent) (nodes.map Prod.snd) :=
  sameParents_map fun i => (RegionInfo.ofDraft_eq_ok (collect_eq_ok h i)).2

theorem exists_parent_of_collect {r : RegionDraft} (hr : r ∈ drafts) {p : RegionId}
    (hp : r.parent = some p) : ∃ q, drafts[p.index]? = some q ∧ q.detached = r.detached := by
  obtain ⟨i, hi, rfl⟩ := List.getElem_of_mem hr
  exact RegionInfo.exists_parent_of_ofDraft (collect_eq_ok h ⟨i, hi⟩) hp

theorem isTop_iff {N : Nesting drafts.length} (hN : Nesting.ofParents (nodes.map Prod.snd) = .ok N)
    (r : Fin drafts.length) :
    (drafts.get r).IsTop ↔
      r ∈ (List.finRange drafts.length).filter fun r =>
        N.parent r = none && !((nodes.map Prod.fst).get r).detached := by
  have hcheck := collect_eq_ok h r
  have hflag : (nodes.get r).1.detached = (drafts.get r).detached :=
    (RegionInfo.detached_of_ofDraft hcheck).1
  have hparent : (drafts.get r).parent.map NodeId.index = (nodes.get r).2.map Fin.val :=
    (RegionInfo.ofDraft_eq_ok hcheck).2
  have hnone : N.parent r = none ↔ (drafts.get r).parent = none := by
    rw [Nesting.parent_of_nodes hN, ← Option.map_eq_none_iff (f := Fin.val), ← hparent,
      Option.map_eq_none_iff]
  have hget : (nodes.map Prod.fst).get r = (nodes.get r).1 := Vector.getElem_map Prod.fst r.isLt
  rw [RegionDraft.IsTop, List.mem_filter, hget, hflag, Bool.and_eq_true, decide_eq_true_eq, hnone]
  simp

end Collected

variable {d : FunctionDraft}

theorem ofDrafts_eq_ok {R : RegionNesting d.blocks.length}
    (h : ofDrafts d.blocks.length d.regions = .ok R) :
    Numbered (d.regions.map RegionDraft.id) ∧
      (∀ r ∈ d.regions, ∀ b ∈ r.references, b.index < d.blocks.length) ∧
      d.Meets .knownRegions ∧ d.Meets .acyclicRegions ∧ d.Meets .someTop ∧ d.Meets .oneTop := by
  unfold ofDrafts at h
  split at h
  · cases h
  · rename_i nodes hnodes
    split at h
    · cases h
    · rename_i N hN
      have htop := isTop_iff hnodes hN
      dsimp only at h
      split at h
      · cases h
      · rename_i top hfilter
        have hinfo (i : Fin d.regions.length) := RegionInfo.ofDraft_eq_ok (collect_eq_ok hnodes i)
        refine ⟨?_, ?_, ?_, ?_, ?_, ?_⟩
        · exact numbered_map_iff.mpr fun i => RegionInfo.index_of_ofDraft (collect_eq_ok hnodes i)
        · intro r hr b hb
          obtain ⟨i, hi, rfl⟩ := List.getElem_of_mem hr
          exact (hinfo ⟨i, hi⟩).1 b hb
        · exact fun r hr p hp => exists_parent_of_collect hnodes hr hp
        · exact (sameParents_of_collect hnodes).acyclic_iff.mpr ⟨N, hN⟩
        · have hmem : (d.regions.get top).IsTop := (htop top).mpr (by rw [hfilter]; simp)
          exact Or.inr ⟨_, List.getElem_mem top.isLt, hmem⟩
        · intro i hi k hk hitop hktop
          have himem := (htop ⟨i, hi⟩).mp hitop
          have hkmem := (htop ⟨k, hk⟩).mp hktop
          rw [hfilter, List.mem_singleton] at himem hkmem
          exact congrArg Fin.val (himem.trans hkmem.symm)
      · cases h

theorem not_meets_of_ofDrafts_eq_error {e : Defect} (hne : d.regions ≠ [])
    (h : ofDrafts d.blocks.length d.regions = .error e) : ¬d.Meets e.requirement := by
  unfold ofDrafts at h
  split at h
  · rename_i hcollect
    cases h
    obtain ⟨i, hi, -⟩ := collect_eq_error hcollect
    have hmem : d.regions.get i ∈ d.regions := List.getElem_mem i.isLt
    rcases RegionInfo.ofDraft_eq_error hi with ⟨hne, rfl⟩ | ⟨b, hb, hge, rfl⟩ | ⟨p, hp, hbad, rfl⟩
    · rintro ⟨-, -, hnumbered⟩
      exact hne (numbered_map_iff.mp hnumbered i)
    · rintro ⟨-, hknown⟩
      have := hknown _ hmem b hb
      omega
    · intro hknown
      obtain ⟨q, hq, hsame⟩ := hknown _ hmem p hp
      exact hbad q hq hsame
  · rename_i nodes hnodes
    split at h
    · rename_i i hi
      cases h
      exact (sameParents_of_collect hnodes).not_acyclic hi
    · rename_i N hN
      have htop := isTop_iff hnodes hN
      dsimp only at h
      split at h
      · rename_i hfilter
        cases h
        rintro (hnil | ⟨r, hr, hrtop⟩)
        · exact hne hnil
        · obtain ⟨i, hi, rfl⟩ := List.getElem_of_mem hr
          have hmem := (htop ⟨i, hi⟩).mp hrtop
          rw [hfilter] at hmem
          cases hmem
      · cases h
      · cases h
        intro hone
        rename_i hnil hsingle
        have hnodup := (List.nodup_finRange d.regions.length).filter fun r =>
          N.parent r = none && !((nodes.map Prod.fst).get r).detached
        rcases htops : (List.finRange d.regions.length).filter fun r =>
          N.parent r = none && !((nodes.map Prod.fst).get r).detached with _ | ⟨a, _ | ⟨b, rest⟩⟩
        · exact hnil htops
        · exact hsingle a htops
        · have ha : (d.regions.get a).IsTop := (htop a).mpr (by rw [htops]; simp)
          have hb : (d.regions.get b).IsTop := (htop b).mpr (by rw [htops]; simp)
          obtain rfl : a = b := Fin.ext (hone a.val a.isLt b.val b.isLt ha hb)
          rw [htops] at hnodup
          simp at hnodup

end RegionNesting

end Regions

namespace Function

variable {d : FunctionDraft}

theorem checkBlock_eq_ok {position : Nat} {d : BlockDraft} {b : Block}
    (h : checkBlock position d = .ok b) : d.id.index = position := by
  unfold checkBlock at h
  split at h
  · assumption
  · cases h

theorem checkBlock_eq_error {position : Nat} {d : BlockDraft} {e : Defect}
    (h : checkBlock position d = .error e) :
    d.id.index ≠ position ∧ e = .misnumberedBlock position d.id := by
  unfold checkBlock at h
  split at h
  · cases h
  · rename_i hne
    exact ⟨hne, (Except.error.inj h).symm⟩

theorem meets_of_regions_eq_nil (h : d.regions = []) :
    Numbered (d.regions.map RegionDraft.id) ∧
      (∀ r ∈ d.regions, ∀ b ∈ r.references, b.index < d.blocks.length) ∧
      d.Meets .knownRegions ∧ d.Meets .acyclicRegions ∧ d.Meets .someTop ∧ d.Meets .oneTop := by
  refine ⟨?_, ?_, ?_, ?_, Or.inl h, ?_⟩
  · intro i hi
    simp [h] at hi
  · simp [h]
  · intro r hr
    simp [h] at hr
  · intro i hi
    obtain ⟨_, ⟨id, hid, -⟩, -⟩ := TransGen.head'_iff.mp hi
    simp [h] at hid
  · intro i hi
    simp [h] at hi

theorem ofDraft_eq_ok {f : Function} (h : ofDraft d = .ok f) :
    f.name = d.name ∧ ∀ r, d.Meets r := by
  rw [ofDraft, mapError_eq_ok] at h
  simp only [bind_eq_ok] at h
  obtain ⟨blocks, hblocks, loops, hloops, h⟩ := h
  obtain ⟨hloopIds, hloopBlocks, hloopParents, hloopCycles⟩ := LoopNesting.ofDrafts_eq_ok hloops
  have hblockIds : Numbered (d.blocks.map BlockDraft.id) :=
    numbered_map_iff.mpr fun i => checkBlock_eq_ok (collect_eq_ok hblocks i)
  obtain ⟨hname, hregionIds, hregionBlocks, hregionParents, hregionCycles, hsome, hone⟩ :
      f.name = d.name ∧ Numbered (d.regions.map RegionDraft.id) ∧
        (∀ r ∈ d.regions, ∀ b ∈ r.references, b.index < d.blocks.length) ∧
        d.Meets .knownRegions ∧ d.Meets .acyclicRegions ∧ d.Meets .someTop ∧ d.Meets .oneTop := by
    split at h
    · obtain ⟨regions, -, hf⟩ := bind_eq_ok.mp h
      cases hf
      exact ⟨rfl, meets_of_regions_eq_nil (by assumption)⟩
    · obtain ⟨regions, hregions, hf⟩ := bind_eq_ok.mp h
      cases hf
      exact ⟨rfl, RegionNesting.ofDrafts_eq_ok hregions⟩
  refine ⟨hname, fun r => ?_⟩
  cases r with
  | numbered => exact ⟨hblockIds, hloopIds, hregionIds⟩
  | knownBlocks => exact ⟨hloopBlocks, hregionBlocks⟩
  | knownLoops => exact hloopParents
  | knownRegions => exact hregionParents
  | acyclicLoops => exact hloopCycles
  | acyclicRegions => exact hregionCycles
  | someTop => exact hsome
  | oneTop => exact hone
  | distinctNames => trivial

theorem ofDraft_eq_error {e : ModelError} (h : ofDraft d = .error e) :
    e.function = d.name ∧ ¬d.Meets e.defect.requirement := by
  rw [ofDraft, mapError_eq_error] at h
  obtain ⟨defect, h, rfl⟩ := h
  refine ⟨rfl, ?_⟩
  simp only [bind_eq_error] at h
  rcases h with h | ⟨blocks, -, h⟩
  · obtain ⟨i, hi, -⟩ := collect_eq_error h
    obtain ⟨hne, rfl⟩ := checkBlock_eq_error hi
    rintro ⟨hnumbered, -⟩
    exact hne (numbered_map_iff.mp hnumbered i)
  rcases h with h | ⟨loops, -, h⟩
  · exact LoopNesting.not_meets_of_ofDrafts_eq_error h
  split at h
  · rcases bind_eq_error.mp h with h | ⟨regions, -, h⟩ <;> cases h
  · rename_i hne
    rcases bind_eq_error.mp h with h | ⟨regions, -, h⟩
    · exact RegionNesting.not_meets_of_ofDrafts_eq_error hne h
    · cases h

end Function

namespace Program

theorem firstRepeat?_eq_some {seen names : List String} {name : String}
    (h : firstRepeat? seen names = some name) :
    (name ∈ seen ∧ name ∈ names) ∨ 2 ≤ names.count name := by
  induction names generalizing seen with
  | nil => cases h
  | cons first names ih =>
      rw [firstRepeat?] at h
      split at h
      · rename_i hseen
        obtain rfl := Option.some.inj h
        exact Or.inl ⟨hseen, List.mem_cons_self⟩
      · rcases ih h with ⟨hmem, hin⟩ | hcount
        · rcases List.mem_cons.mp hmem with rfl | hmem
          · right
            have := List.count_pos_iff.mpr hin
            rw [List.count_cons_self]
            omega
          · exact Or.inl ⟨hmem, List.mem_cons_of_mem _ hin⟩
        · right
          have := List.count_le_count_cons (a := name) (b := first) (l := names)
          omega

variable {d : ProgramDraft}

theorem map_name_of_mapM {functions : List Function}
    (h : d.functions.mapM Function.ofDraft = .ok functions) :
    functions.map Function.name = d.functions.map FunctionDraft.name :=
  map_eq_of_listMapM_eq_ok (fun _ _ hf => (Function.ofDraft_eq_ok hf).1) h

theorem meets_named (name : String) {r : Requirement} (h : d.Meets r) :
    (d.named name).Meets r := by
  refine ⟨fun f hf => h.1 f (List.mem_filter.mp hf).1, fun hr => ?_⟩
  exact (h.2 hr).sublist (List.filter_sublist.map _)

theorem not_meets_named_of_ofDraft_eq_error {e : ModelError} (h : Program.ofDraft d = .error e) :
    ¬(d.named e.function).Meets e.defect.requirement := by
  unfold ofDraft at h
  split at h
  · rename_i hmap
    cases h
    obtain ⟨f, hf, he⟩ := listMapM_eq_error hmap
    obtain ⟨hname, hmeets⟩ := Function.ofDraft_eq_error he
    intro hall
    exact hmeets (hall.1 f (List.mem_filter.mpr ⟨hf, by simp [hname]⟩))
  · rename_i functions hmap
    split at h
    · rename_i name hrepeat
      cases h
      intro hall
      have hnodup := hall.2 rfl
      have hcount : 2 ≤ (d.functions.map FunctionDraft.name).count name := by
        rw [← map_name_of_mapM hmap]
        simpa using firstRepeat?_eq_some hrepeat
      have hle : ((d.named name).functions.map FunctionDraft.name).count name ≤ 1 :=
        List.nodup_iff_count_le_one.mp hnodup name
      have heq : ((d.named name).functions.map FunctionDraft.name).count name =
          (d.functions.map FunctionDraft.name).count name := by
        simp only [ProgramDraft.named, List.count, List.countP_map, List.countP_filter]
        congr 1
        funext f
        simp
      omega
    · cases h

-- A draft is accepted if and only if it meets every requirement. The defect of an error stands for
-- a requirement that the draft violates, and does so in the functions that the error names.
theorem ofDraft_accepts_iff_meets (d : ProgramDraft) :
    ((∃ p, Program.ofDraft d = .ok p) ↔ ∀ r, d.Meets r) ∧
      ∀ e, Program.ofDraft d = .error e →
        ¬d.Meets e.defect.requirement ∧ ¬(d.named e.function).Meets e.defect.requirement := by
  have herror (e : ModelError) (h : Program.ofDraft d = .error e) :
      ¬d.Meets e.defect.requirement ∧ ¬(d.named e.function).Meets e.defect.requirement := by
    have hnamed := not_meets_named_of_ofDraft_eq_error h
    exact ⟨fun hmeets => hnamed (meets_named e.function hmeets), hnamed⟩
  refine ⟨⟨?_, ?_⟩, herror⟩
  · rintro ⟨p, h⟩ r
    unfold ofDraft at h
    split at h
    · cases h
    · rename_i functions hmap
      split at h
      · cases h
      · rename_i hrepeat
        constructor
        · intro f hf
          obtain ⟨g, -, hg⟩ := exists_of_listMapM_eq_ok hmap hf
          exact (Function.ofDraft_eq_ok hg).2 r
        · rintro -
          rw [← map_name_of_mapM hmap]
          exact (firstRepeat?_eq_none_iff.mp hrepeat).1
  · intro hall
    apply exists_ok_of_ne_error
    intro e h
    exact (herror e h).1 (hall _)

end Program

end LoopPragma
