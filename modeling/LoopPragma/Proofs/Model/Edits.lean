import LoopPragma.Proofs.Model.Validation

namespace LoopPragma

structure AnyId where
  kind : NodeKind
  id : NodeId kind
deriving DecidableEq

theorem NodeId.index_ofIndex_le {kind : NodeKind} (i : Nat) :
    (ofIndex i : NodeId kind).index ≤ i := by
  rw [ofIndex, index, UInt32.toNat_ofNat']
  exact Nat.mod_le _ _

inductive BlockChange where
  | call (call : Call)
  | parallel
  | divergent

def BlockChange.apply : BlockChange → Block → Block
  | call c, b => { b with calls := b.calls ++ [c] }
  | parallel, b => { b with tags := { b.tags with parallel := true } }
  | divergent, b => { b with tags := { b.tags with divergent := true } }

namespace FunctionDraft

variable {d : FunctionDraft}

def changeBlock (d : FunctionDraft) (id : BlockId) : BlockChange → Except Fault FunctionDraft
  | .call c => d.addCall id c
  | .parallel => d.markParallel id
  | .divergent => d.markDivergent id

theorem changeBlock_eq (id : BlockId) (change : BlockChange) :
    d.changeBlock id change = d.editBlock id change.apply := by
  cases change <;> rfl

theorem editBlock_of_lt {id : BlockId} (h : id.index < d.blocks.length) (edit : Block → Block) :
    d.editBlock id edit = .ok { d with
      blocks := d.blocks.modify id.index fun b => { b with toBlock := edit b.toBlock } } := by
  simp [editBlock, NodeId.resolve, h, bind, Except.bind, pure, Except.pure]

theorem index_lt_of_editBlock {id : BlockId} {edit : Block → Block} {d' : FunctionDraft}
    (h : d.editBlock id edit = .ok d') : id.index < d.blocks.length := by
  obtain ⟨i, hi, -⟩ := bind_eq_ok.mp h
  rw [NodeId.resolve_eq_ok.mp hi]
  exact i.isLt

def count (d : FunctionDraft) : NodeKind → Nat
  | .block => d.blocks.length
  | .loop => d.loops.length
  | .region => d.regions.length

def Has (d : FunctionDraft) (id : AnyId) : Prop := id.id.index < d.count id.kind

end FunctionDraft

namespace Session

inductive Edit where
  | setLinkage (linkage : Linkage)
  | addBlock (lines : List UInt32)
  | changeBlock (block : BlockId) (change : BlockChange)
  | addLoop (parent : Option LoopId) (header : BlockId) (latch : Option BlockId)
      (blocks : List BlockId) (startLine : Option UInt32)
  | addRegion (parent : Option RegionId) (entering : Option BlockId) (blocks : List BlockId)
  | addDetachedRegion (entering : Option BlockId) (blocks : List BlockId)

namespace Edit

def added? : Edit → Option NodeKind
  | addBlock .. => some .block
  | addLoop .. => some .loop
  | addRegion .. | addDetachedRegion .. => some .region
  | setLinkage .. | changeBlock .. => none

-- An edit that adds a node returns the id of the node.
def Answer (e : Edit) : Type := e.added?.elim Unit NodeId

def arguments : Edit → List AnyId
  | setLinkage _ | addBlock _ => []
  | changeBlock block _ => [⟨.block, block⟩]
  | addLoop parent header latch blocks _ =>
    parent.toList.map (AnyId.mk .loop) ++
      (header :: (latch.toList ++ blocks)).map (AnyId.mk .block)
  | addRegion parent entering blocks =>
    parent.toList.map (AnyId.mk .region) ++ (entering.toList ++ blocks).map (AnyId.mk .block)
  | addDetachedRegion entering blocks => (entering.toList ++ blocks).map (AnyId.mk .block)

def apply (d : FunctionDraft) : (e : Edit) → Except Fault (e.Answer × FunctionDraft)
  | setLinkage linkage => .ok ((), d.setLinkage linkage)
  | addBlock lines => .ok (d.addBlock lines)
  | changeBlock block change => (d.changeBlock block change).map fun d => ((), d)
  | addLoop parent header latch blocks startLine =>
    .ok (d.addLoop parent header latch blocks startLine)
  | addRegion parent entering blocks => .ok (d.addRegion parent entering blocks)
  | addDetachedRegion entering blocks => .ok (d.addDetachedRegion entering blocks)

-- The only fault is a change of a block that the draft lacks.
theorem exists_apply {d : FunctionDraft} (e : Edit) (h : ∀ id ∈ e.arguments, d.Has id) :
    ∃ answer d', e.apply d = .ok (answer, d') := by
  cases e with
  | changeBlock block change =>
      have hlt : block.index < d.blocks.length := h _ (List.mem_singleton_self _)
      rw [apply, FunctionDraft.changeBlock_eq, FunctionDraft.editBlock_of_lt hlt]
      exact ⟨_, _, rfl⟩
  | setLinkage | addBlock | addLoop | addRegion | addDetachedRegion => exact ⟨_, _, rfl⟩

def onBlock (i : Nat) (b : Block) : Edit → Block
  | changeBlock block change => if block.index = i then change.apply b else b
  | _ => b

theorem modify_eq_mapIdx {block : BlockId} {change : BlockChange} (blocks : List BlockDraft) :
    (blocks.modify block.index fun b => { b with toBlock := change.apply b.toBlock }) =
      blocks.mapIdx fun i b =>
        { b with toBlock := (changeBlock block change).onBlock i b.toBlock } := by
  apply List.ext_getElem?
  intro i
  rw [List.getElem?_modify, List.getElem?_mapIdx]
  by_cases hi : block.index = i <;> simp [onBlock, hi]

theorem mapIdx_onBlock_of_eq {e : Edit} (he : ∀ i b, e.onBlock i b = b)
    (blocks : List BlockDraft) :
    blocks.mapIdx (fun i b => { b with toBlock := e.onBlock i b.toBlock }) = blocks := by
  apply List.ext_getElem?
  intro i
  simp [List.getElem?_mapIdx, he]

end Edit

structure Step where
  edit : Edit
  answer : edit.Answer

namespace Step

def id? (step : Step) : Option AnyId :=
  go step.edit.added? step.answer
where
  go : (added : Option NodeKind) → added.elim Unit NodeId → Option AnyId
    | none, _ => none
    | some kind, id => some ⟨kind, id⟩

-- The node that a step added, under the id that it returned.
def block? : Step → Option BlockDraft
  | ⟨.addBlock lines, id⟩ => some { id, lines }
  | _ => none

def loop? : Step → Option LoopDraft
  | ⟨.addLoop parent header latch blocks startLine, id⟩ =>
    some { id, header, latch, blocks, parent, startLine }
  | _ => none

def region? : Step → Option RegionDraft
  | ⟨.addRegion parent entering blocks, id⟩ => some { id, parent, entering, blocks }
  | ⟨.addDetachedRegion entering blocks, id⟩ => some { id, entering, blocks, detached := true }
  | _ => none

section

variable {step : Step}

theorem id?_of_block? {b : BlockDraft} (h : step.block? = some b) :
    step.id? = some ⟨.block, b.id⟩ := by
  obtain ⟨e, id⟩ := step
  cases e <;> cases h
  rfl

theorem id?_of_loop? {lp : LoopDraft} (h : step.loop? = some lp) :
    step.id? = some ⟨.loop, lp.id⟩ := by
  obtain ⟨e, id⟩ := step
  cases e <;> cases h
  rfl

theorem id?_of_region? {r : RegionDraft} (h : step.region? = some r) :
    step.id? = some ⟨.region, r.id⟩ := by
  obtain ⟨e, id⟩ := step
  cases e <;> cases h <;> rfl

theorem mem_arguments_of_loop? {lp : LoopDraft} (h : step.loop? = some lp) :
    (∀ b ∈ lp.references, ⟨.block, b⟩ ∈ step.edit.arguments) ∧
      ∀ p, lp.parent = some p → ⟨.loop, p⟩ ∈ step.edit.arguments := by
  obtain ⟨e, id⟩ := step
  cases e <;> cases h
  constructor
  · intro b hb
    exact List.mem_append_right _ (List.mem_map_of_mem hb)
  · rintro p rfl
    exact List.mem_append_left _ (List.mem_singleton_self _)

theorem mem_arguments_of_region? {r : RegionDraft} (h : step.region? = some r) :
    (∀ b ∈ r.references, ⟨.block, b⟩ ∈ step.edit.arguments) ∧
      ∀ p, r.parent = some p → ⟨.region, p⟩ ∈ step.edit.arguments := by
  obtain ⟨e, id⟩ := step
  cases e <;> cases h
  · constructor
    · intro b hb
      exact List.mem_append_right _ (List.mem_map_of_mem hb)
    · rintro p rfl
      exact List.mem_append_left _ (List.mem_singleton_self _)
  · constructor
    · intro b hb
      exact List.mem_map_of_mem hb
    · rintro p ⟨⟩

theorem count_added? (step : Step) (kind : NodeKind) :
    step.edit.added?.toList.count kind =
      match kind with
      | .block => step.block?.toList.length
      | .loop => step.loop?.toList.length
      | .region => step.region?.toList.length := by
  obtain ⟨e, id⟩ := step
  cases e <;> cases kind <;> rfl

end

-- All that a step does to a draft, except for the linkage.
structure Takes (step : Step) (d d' : FunctionDraft) : Prop where
  id : step.id? = step.edit.added?.map fun kind => ⟨kind, .ofIndex (d.count kind)⟩
  name : d'.name = d.name
  blocks : d'.blocks = d.blocks.mapIdx
    (fun i b => { b with toBlock := step.edit.onBlock i b.toBlock }) ++ step.block?.toList
  loops : d'.loops = d.loops ++ step.loop?.toList
  regions : d'.regions = d.regions ++ step.region?.toList

theorem takes_of_apply {d d' : FunctionDraft} {e : Edit} {answer : e.Answer}
    (h : e.apply d = .ok (answer, d')) : Takes ⟨e, answer⟩ d d' := by
  have hnone {α : Type} (xs : List α) : xs = xs ++ (none : Option α).toList :=
    (List.append_nil xs).symm
  cases e with
  | changeBlock block change =>
      rw [Edit.apply, FunctionDraft.changeBlock_eq] at h
      cases hedit : d.editBlock block change.apply with
      | error fault =>
          rw [hedit] at h
          cases h
      | ok changed =>
          rw [hedit] at h
          cases h
          have hlt := FunctionDraft.index_lt_of_editBlock hedit
          rw [FunctionDraft.editBlock_of_lt hlt] at hedit
          cases hedit
          refine ⟨rfl, rfl, ?_, hnone _, hnone _⟩
          rw [← Edit.modify_eq_mapIdx]
          exact hnone _
  | setLinkage linkage =>
      cases h
      refine ⟨rfl, rfl, ?_, hnone _, hnone _⟩
      rw [Edit.mapIdx_onBlock_of_eq fun _ _ => rfl]
      exact hnone _
  | addBlock lines =>
      cases h
      refine ⟨rfl, rfl, ?_, hnone _, hnone _⟩
      rw [Edit.mapIdx_onBlock_of_eq fun _ _ => rfl]
      rfl
  | addLoop parent header latch blocks startLine =>
      cases h
      refine ⟨rfl, rfl, ?_, rfl, hnone _⟩
      rw [Edit.mapIdx_onBlock_of_eq fun _ _ => rfl]
      exact hnone _
  | addRegion | addDetachedRegion =>
      cases h
      refine ⟨rfl, rfl, ?_, hnone _, rfl⟩
      rw [Edit.mapIdx_onBlock_of_eq fun _ _ => rfl]
      exact hnone _

namespace Takes

variable {step : Step} {d d' : FunctionDraft} (h : step.Takes d d')
include h

theorem count_eq (kind : NodeKind) :
    d'.count kind = d.count kind + step.edit.added?.toList.count kind := by
  rw [step.count_added?]
  cases kind with
  | block => simp [FunctionDraft.count, h.blocks]
  | loop => simp [FunctionDraft.count, h.loops]
  | region => simp [FunctionDraft.count, h.regions]

theorem count_le (kind : NodeKind) : d.count kind ≤ d'.count kind := by
  have := h.count_eq kind
  omega

theorem eq_ofIndex {kind : NodeKind} {id : NodeId kind} (hid : step.id? = some ⟨kind, id⟩) :
    step.edit.added? = some kind ∧ id = .ofIndex (d.count kind) := by
  rw [h.id, Option.map_eq_some_iff] at hid
  obtain ⟨_, hadded, heq⟩ := hid
  cases heq
  exact ⟨hadded, rfl⟩

theorem has_id? {id : AnyId} (hid : step.id? = some id) : d'.Has id := by
  obtain ⟨hadded, heq⟩ := h.eq_ofIndex hid
  have hcount := h.count_eq id.kind
  have hle : (NodeId.ofIndex (d.count id.kind) : NodeId id.kind).index ≤ d.count id.kind :=
    NodeId.index_ofIndex_le _
  rw [hadded, Option.toList_some, List.count_singleton_self] at hcount
  rw [FunctionDraft.Has, heq]
  omega

end Takes

end Step

end Session

end LoopPragma
