import LoopPragma.Model.BlockList
import LoopPragma.Model.Collect
import LoopPragma.Model.Defect
import LoopPragma.Model.Draft
import LoopPragma.Nesting.Walk

namespace LoopPragma

structure RegionInfo (numBlocks : Nat) where
  entering : Option (Fin numBlocks)
  blocks : BlockList numBlocks
  detached : Bool

namespace RegionInfo

-- The parent of a region: it exists, and it is detached exactly if the region is.
def parentOf (drafts : List RegionDraft) (d : RegionDraft) (p : RegionId) :
    Except Defect (Fin drafts.length) :=
  match p.resolve drafts.length with
  | .error _ => .error (.regionParent d.id p)
  | .ok i => if (drafts.get i).detached = d.detached then .ok i else .error (.regionParent d.id p)

theorem detached_of_parentOf {drafts : List RegionDraft} {d : RegionDraft} {p : RegionId}
    {i : Fin drafts.length} (h : parentOf drafts d p = .ok i) :
    (drafts.get i).detached = d.detached := by
  unfold parentOf at h
  split at h
  · cases h
  · split at h
    · cases h
      assumption
    · cases h

-- A region at a position of a draft, and its parent. The first reference without a target is
-- the one reported.
def ofDraft (numBlocks : Nat) (drafts : List RegionDraft) (position : Nat) (d : RegionDraft) :
    Except Defect (RegionInfo numBlocks × Option (Fin drafts.length)) := do
  if d.id.index ≠ position then throw (.misnumberedRegion position d.id)
  let block (b : BlockId) := (b.resolve numBlocks).mapError fun _ => Defect.regionBlock d.id b
  let entering ← d.entering.mapM block
  let blocks ← d.blocks.mapM block
  let parent ← d.parent.mapM (parentOf drafts d)
  return ({ entering, blocks := ⟨blocks, _, rfl⟩, detached := d.detached }, parent)

section

variable {numBlocks position : Nat} {drafts : List RegionDraft} {d : RegionDraft}
  {info : RegionInfo numBlocks} {parent : Option (Fin drafts.length)}

theorem index_of_ofDraft (h : ofDraft numBlocks drafts position d = .ok (info, parent)) :
    d.id.index = position := by
  by_cases hp : d.id.index = position
  · exact hp
  · simp [ofDraft, hp, throw, throwThe, MonadExceptOf.throw, bind, Except.bind] at h

-- What a region says about itself, and what its parent says, agree.
theorem detached_of_ofDraft (h : ofDraft numBlocks drafts position d = .ok (info, parent)) :
    info.detached = d.detached ∧ ∀ p, parent = some p → (drafts.get p).detached = d.detached := by
  have hi := index_of_ofDraft h
  simp only [ofDraft, hi, ne_eq, not_true_eq_false, if_false, bind_eq_ok, pure, Except.pure,
    Except.ok.injEq, Prod.mk.injEq] at h
  obtain ⟨_, _, _, _, _, hparent, rfl, rfl⟩ := h
  refine ⟨rfl, fun p hp => ?_⟩
  cases hd : d.parent with
  | none =>
    simp only [hd, Option.mapM_none, pure, Except.pure, Except.ok.injEq] at hparent
    simp [← hparent] at hp
  | some id =>
    simp only [hd, Option.mapM_some, Functor.map, Except.map] at hparent
    cases hf : parentOf drafts d id with
    | error e => simp [hf] at hparent
    | ok q =>
      simp only [hf, Except.ok.injEq] at hparent
      rw [hp] at hparent
      cases hparent
      exact detached_of_parentOf hf

end

end RegionInfo

-- The attached regions form one tree. Detached ones, the reduced forms of others, nest among
-- themselves only.
structure RegionNesting (numBlocks : Nat) where
  size : Nat
  size_le : size ≤ UInt32.size
  nesting : Nesting size
  regions : Vector (RegionInfo numBlocks) size
  detached_parent : ∀ {r p : Fin size}, nesting.parent r = some p →
    (regions.get r).detached = (regions.get p).detached
  top : Fin size
  attached_root_iff : ∀ r : Fin size,
    nesting.parent r = none ∧ (regions.get r).detached = false ↔ r = top
  owners : Vector (Option (Fin size)) numBlocks := Vector.ofFn fun b =>
    nesting.deepest ((List.finRange size).filter fun r =>
      !(regions.get r).detached && b ∈ (regions.get r).blocks)
  owners_eq : owners = Vector.ofFn fun b =>
    nesting.deepest ((List.finRange size).filter fun r =>
      !(regions.get r).detached && b ∈ (regions.get r).blocks) := by rfl

namespace RegionNesting

def flat (numBlocks : Nat) : RegionNesting numBlocks where
  size := 1
  size_le := by decide
  nesting := ⟨#v[none], #v[0], by decide, by decide⟩
  regions :=
    #v[{ entering := none, blocks := ⟨List.finRange numBlocks, _, rfl⟩, detached := false }]
  detached_parent {r p} h := by
    rw [Subsingleton.elim r p]
  top := 0
  attached_root_iff r := by
    cases Subsingleton.elim r 0
    exact iff_of_true ⟨rfl, rfl⟩ rfl

def ofDrafts (numBlocks : Nat) (drafts : List RegionDraft) :
    Except Defect (RegionNesting numBlocks) :=
  match h : collect drafts.length fun i =>
    RegionInfo.ofDraft numBlocks drafts i (drafts.get i) with
  | .error e => .error e
  | .ok nodes =>
    match hn : Nesting.ofParents (nodes.map Prod.snd) with
    | .error r => .error (.regionCycle (.ofFin r))
    | .ok nesting =>
      let regions := nodes.map Prod.fst
      match ht : (List.finRange drafts.length).filter fun r =>
        nesting.parent r = none && !(regions.get r).detached with
      | [] => .error .noTopRegion
      | [top] => .ok {
          size := drafts.length
          size_le := by
            rcases Nat.eq_zero_or_pos drafts.length with h0 | hpos
            · simp [h0]
            · have := RegionInfo.index_of_ofDraft (collect_eq_ok h ⟨drafts.length - 1, by omega⟩)
              have := NodeId.index_lt drafts[drafts.length - 1].id
              simp only [List.get_eq_getElem] at *
              omega
          nesting
          regions
          detached_parent := fun {r p} hp => by
            have hparent : (nodes.get r).2 = some p := by
              rw [Nesting.parent, Nesting.parents_of_ofParents hn] at hp
              exact (Vector.getElem_map Prod.snd r.isLt).symm.trans hp
            have flag (i : Fin drafts.length) :
                (regions.get i).detached = (drafts.get i).detached := by
              have hget : regions.get i = (nodes.get i).1 := Vector.getElem_map Prod.fst i.isLt
              rw [hget]
              exact (RegionInfo.detached_of_ofDraft (collect_eq_ok h i)).1
            rw [flag, flag, (RegionInfo.detached_of_ofDraft (collect_eq_ok h r)).2 p hparent]
          top
          attached_root_iff := fun r => by
            have : r ∈ [top] ↔ nesting.parent r = none ∧ (regions.get r).detached = false := by
              rw [← ht]
              simp
            rw [← this, List.mem_singleton] }
      | tops => .error (.topRegions tops.length)

variable {numBlocks : Nat} (R : RegionNesting numBlocks)

def info (r : Fin R.size) : RegionInfo numBlocks := R.regions.get r

def owner (b : Fin numBlocks) : Option (Fin R.size) := R.owners.get b

def holders (b : Fin numBlocks) : List (Fin R.size) :=
  (List.finRange R.size).filter fun r => !(R.info r).detached && b ∈ (R.info r).blocks

theorem owner_eq (b : Fin numBlocks) : R.owner b = R.nesting.deepest (R.holders b) := by
  change R.owners[b] = _
  simp only [R.owners_eq, Fin.getElem_fin, Vector.getElem_ofFn]
  rfl

def outermost (b : Fin numBlocks) : Option (Fin R.size) := (R.owner b).map R.nesting.root

def draft (r : Fin R.size) : RegionDraft :=
  let info := R.info r
  { id := .ofFin r
    parent := (R.nesting.parent r).map .ofFin
    entering := info.entering.map .ofFin
    blocks := info.blocks.toList.map .ofFin
    detached := info.detached }

end RegionNesting

end LoopPragma
