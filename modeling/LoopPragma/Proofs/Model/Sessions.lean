import LoopPragma.Proofs.Model.Edits

namespace LoopPragma

open Relation

-- A node at a position: its id is the position, the blocks that it refers to exist, and its parent
-- stands before it.
structure IsPlaced {kind : NodeKind} (numBlocks i : Nat) (id : NodeId kind)
    (references : List BlockId) (parent : Option (NodeId kind)) : Prop where
  id : id = .ofIndex i
  references : ∀ b ∈ references, b.index < numBlocks
  parent : ∀ p, parent = some p → p.index < i

theorem IsPlaced.index_eq {kind : NodeKind} {n i : Nat} {id : NodeId kind}
    {references : List BlockId} {parent : Option (NodeId kind)}
    (h : IsPlaced n i id references parent) (hi : i < UInt32.size) : id.index = i := by
  rw [h.id, NodeId.index_ofIndex hi]

theorem IsPlaced.mono {kind : NodeKind} {n m i : Nat} {id : NodeId kind}
    {references : List BlockId} {parent : Option (NodeId kind)} (hle : n ≤ m)
    (h : IsPlaced n i id references parent) : IsPlaced m i id references parent where
  id := h.id
  references b hb := (h.references b hb).trans_le hle
  parent := h.parent

theorem forall_getElem?_append_toList {α : Type} {xs : List α} {o : Option α} {P : Nat → α → Prop}
    (hxs : ∀ i x, xs[i]? = some x → P i x) (ho : ∀ x, o = some x → P xs.length x) :
    ∀ i x, (xs ++ o.toList)[i]? = some x → P i x := by
  intro i x hx
  rcases Nat.lt_or_ge i xs.length with hlt | hge
  · rw [List.getElem?_append_left hlt] at hx
    exact hxs i x hx
  · rw [List.getElem?_append_right hge] at hx
    obtain ⟨hi, hget⟩ := List.getElem?_eq_some_iff.mp hx
    have hlength := o.length_toList_le
    obtain rfl : i = xs.length := by omega
    exact ho x (Option.mem_toList.mp (hget ▸ List.getElem_mem hi))

theorem exists_of_append_singleton_eq {α : Type} {xs before later : List α} {x last : α}
    (h : xs ++ [last] = before ++ x :: later) :
    (last = x ∧ later = []) ∨ ∃ front, later = front ++ [last] ∧ xs = before ++ x :: front := by
  rcases List.eq_nil_or_concat later with rfl | ⟨front, y, rfl⟩
  · obtain ⟨-, hlast⟩ := List.append_inj' h rfl
    exact .inl ⟨List.singleton_inj.mp hlast, rfl⟩
  · rw [List.concat_eq_append, ← List.cons_append, ← List.append_assoc] at h
    obtain ⟨hfront, hlast⟩ := List.append_inj' h rfl
    exact .inr ⟨front, by rw [List.concat_eq_append, List.singleton_inj.mp hlast], hfront⟩

theorem acyclic_of_lt {kind : NodeKind} {parents : List (Option (NodeId kind))}
    (hlt : ∀ (i : Nat) (id : NodeId kind), parents[i]? = some (some id) → id.index < i) :
    Acyclic parents := by
  have hup {i p : Nat} (h : TransGen (NamesParent parents) i p) : p < i := by
    induction h with
    | single hp =>
        obtain ⟨id, hid, rfl⟩ := hp
        exact hlt _ id hid
    | tail _ hp ih =>
        obtain ⟨id, hid, rfl⟩ := hp
        exact (hlt _ id hid).trans ih
  exact fun i hi => Nat.lt_irrefl i (hup hi)

namespace FunctionDraft

variable {d d' : FunctionDraft} {step : Session.Step}

-- Ids have 32 bits, so this is how many nodes of a kind can be told apart.
def FitsIds (d : FunctionDraft) : Prop := ∀ kind, d.count kind ≤ UInt32.size

structure IsOrderly (d : FunctionDraft) : Prop where
  blocks : ∀ (i : Nat) (b : BlockDraft), d.blocks[i]? = some b → b.id = .ofIndex i
  loops : ∀ (i : Nat) (lp : LoopDraft), d.loops[i]? = some lp →
    IsPlaced d.blocks.length i lp.id lp.references lp.parent
  regions : ∀ (i : Nat) (r : RegionDraft), d.regions[i]? = some r →
    IsPlaced d.blocks.length i r.id r.references r.parent

namespace IsOrderly

variable (h : d.IsOrderly)
include h

theorem of_takes (hstep : step.Takes d d') (hargs : ∀ id ∈ step.edit.arguments, d.Has id) :
    d'.IsOrderly := by
  have hle : d.blocks.length ≤ d'.blocks.length := hstep.count_le .block
  refine ⟨?_, ?_, ?_⟩
  · rw [hstep.blocks]
    refine forall_getElem?_append_toList (fun i b hb => ?_) fun b hb => ?_
    · rw [List.getElem?_mapIdx] at hb
      obtain ⟨old, hold, rfl⟩ := Option.map_eq_some_iff.mp hb
      exact h.blocks i old hold
    · rw [List.length_mapIdx]
      exact (hstep.eq_ofIndex (Session.Step.id?_of_block? hb)).2
  · rw [hstep.loops]
    refine forall_getElem?_append_toList (fun i lp hlp => (h.loops i lp hlp).mono hle) ?_
    intro lp hlp
    obtain ⟨hblocks, hparent⟩ := Session.Step.mem_arguments_of_loop? hlp
    refine IsPlaced.mono hle ⟨(hstep.eq_ofIndex (Session.Step.id?_of_loop? hlp)).2, ?_, ?_⟩
    · exact fun b hb => hargs _ (hblocks b hb)
    · exact fun p hp => hargs _ (hparent p hp)
  · rw [hstep.regions]
    refine forall_getElem?_append_toList (fun i r hr => (h.regions i r hr).mono hle) ?_
    intro r hr
    obtain ⟨hblocks, hparent⟩ := Session.Step.mem_arguments_of_region? hr
    refine IsPlaced.mono hle ⟨(hstep.eq_ofIndex (Session.Step.id?_of_region? hr)).2, ?_, ?_⟩
    · exact fun b hb => hargs _ (hblocks b hb)
    · exact fun p hp => hargs _ (hparent p hp)

variable (hfits : d.FitsIds)
include hfits

theorem index_block {i : Nat} {b : BlockDraft} (hb : d.blocks[i]? = some b) : b.id.index = i := by
  have hi : i < d.blocks.length := (List.getElem?_eq_some_iff.mp hb).1
  rw [h.blocks i b hb, NodeId.index_ofIndex (hi.trans_le (hfits .block))]

theorem index_loop {i : Nat} {lp : LoopDraft} (hlp : d.loops[i]? = some lp) : lp.id.index = i := by
  have hi : i < d.loops.length := (List.getElem?_eq_some_iff.mp hlp).1
  exact (h.loops i lp hlp).index_eq (hi.trans_le (hfits .loop))

theorem index_region {i : Nat} {r : RegionDraft} (hr : d.regions[i]? = some r) :
    r.id.index = i := by
  have hi : i < d.regions.length := (List.getElem?_eq_some_iff.mp hr).1
  exact (h.regions i r hr).index_eq (hi.trans_le (hfits .region))

-- What is left to the regions: which of them are attached, and to what.
theorem meets {r : Requirement} (hr : r ∉ [.knownRegions, .someTop, .oneTop]) : d.Meets r := by
  cases r with
  | numbered =>
      refine ⟨?_, ?_, ?_⟩ <;> refine numbered_map_iff.mpr fun i => ?_
      · exact h.index_block hfits (by simp)
      · exact h.index_loop hfits (by simp)
      · exact h.index_region hfits (by simp)
  | knownBlocks =>
      constructor
      · intro lp hlp b hb
        obtain ⟨i, hi⟩ := List.mem_iff_getElem?.mp hlp
        exact (h.loops i lp hi).references b hb
      · intro r hr b hb
        obtain ⟨i, hi⟩ := List.mem_iff_getElem?.mp hr
        exact (h.regions i r hi).references b hb
  | knownLoops =>
      intro lp hlp p hp
      obtain ⟨i, hi⟩ := List.mem_iff_getElem?.mp hlp
      exact ((h.loops i lp hi).parent p hp).trans (List.getElem?_eq_some_iff.mp hi).1
  | acyclicLoops =>
      refine acyclic_of_lt fun i id hid => ?_
      rw [List.getElem?_map] at hid
      obtain ⟨lp, hlp, hp⟩ := Option.map_eq_some_iff.mp hid
      exact (h.loops i lp hlp).parent id hp
  | acyclicRegions =>
      refine acyclic_of_lt fun i id hid => ?_
      rw [List.getElem?_map] at hid
      obtain ⟨r, hr, hp⟩ := Option.map_eq_some_iff.mp hid
      exact (h.regions i r hr).parent id hp
  | distinctNames => trivial
  | knownRegions | someTop | oneTop => simp at hr

end IsOrderly

end FunctionDraft

structure Session where
  draft : FunctionDraft
  log : List Session.Step := []

namespace Session

def start (name : String) : Session where
  draft := { name }

def edit (s : Session) (e : Edit) : Except Fault Session := do
  let (answer, draft) ← e.apply s.draft
  return { draft, log := s.log ++ [⟨e, answer⟩] }

def run (s : Session) : List Edit → Except Fault Session
  | [] => .ok s
  | e :: edits => do (← s.edit e).run edits

def edits (s : Session) : List Edit := s.log.map Step.edit

def returned (s : Session) : List AnyId := s.log.filterMap Step.id?

-- Every edit is given only ids that came back from edits before it.
def Refers (s : Session) : List Edit → Prop
  | [] => True
  | e :: edits => (∀ id ∈ e.arguments, id ∈ s.returned) ∧ ∀ t, s.edit e = .ok t → t.Refers edits

instance decidableRefers : (s : Session) → (edits : List Edit) → Decidable (s.Refers edits)
  | _, [] => isTrue trivial
  | s, e :: edits =>
    have : Decidable (∀ t, s.edit e = .ok t → t.Refers edits) :=
      match h : s.edit e with
      | .error _ => isTrue (by simp)
      | .ok t =>
        have := decidableRefers t edits
        decidable_of_iff (t.Refers edits) (by simp)
    inferInstanceAs (Decidable (_ ∧ _))

def blockAfter (steps : List Step) (i : Nat) (b : Block) : Block :=
  steps.foldl (fun b step => step.edit.onBlock i b) b

-- The draft holds what the log says and nothing else.
structure IsOrderly (s : Session) : Prop where
  draft : s.draft.IsOrderly
  returned : ∀ id ∈ s.returned, s.draft.Has id
  count : ∀ kind, s.draft.count kind = (s.edits.filterMap Edit.added?).count kind
  loops : s.draft.loops = s.log.filterMap Step.loop?
  regions : s.draft.regions = s.log.filterMap Step.region?
  blocks : s.draft.FitsIds → ∀ before step later b, s.log = before ++ step :: later →
    step.block? = some b →
      { b with toBlock := blockAfter later b.id.index b.toBlock } ∈ s.draft.blocks

theorem isOrderly_start (name : String) : (start name).IsOrderly where
  draft := ⟨fun _ _ h => by simp [start] at h, fun _ _ h => by simp [start] at h,
    fun _ _ h => by simp [start] at h⟩
  returned := by simp [returned, start]
  count kind := by cases kind <;> rfl
  loops := rfl
  regions := rfl
  blocks := by simp [start]

variable {s : Session}

theorem IsOrderly.of_takes (hs : s.IsOrderly) {step : Step} {d : FunctionDraft}
    (hstep : step.Takes s.draft d) (hargs : ∀ id ∈ step.edit.arguments, id ∈ s.returned) :
    IsOrderly { draft := d, log := s.log ++ [step] } where
  draft := hs.draft.of_takes hstep fun id hid => hs.returned id (hargs id hid)
  returned id hid := by
    rw [Session.returned, List.filterMap_append, List.mem_append] at hid
    rcases hid with hid | hid
    · exact (hs.returned id hid).trans_le (hstep.count_le id.kind)
    · exact hstep.has_id? (by simpa using hid)
  count kind := by
    rw [hstep.count_eq, hs.count, edits, edits, List.map_append, List.filterMap_append,
      List.count_append]
    cases hadded : step.edit.added? <;> simp [hadded]
  loops := by
    rw [hstep.loops, hs.loops, List.filterMap_append]
    cases hlp : step.loop? <;> simp [hlp]
  regions := by
    rw [hstep.regions, hs.regions, List.filterMap_append]
    cases hr : step.region? <;> simp [hr]
  blocks hfits before earlier later b hlog hb := by
    have hfits : s.draft.FitsIds := fun kind => (hstep.count_le kind).trans (hfits kind)
    rcases exists_of_append_singleton_eq hlog with ⟨rfl, rfl⟩ | ⟨front, rfl, hfront⟩
    · rw [hstep.blocks, hb]
      exact List.mem_append_right _ (List.mem_singleton_self _)
    · obtain ⟨i, hi, hget⟩ := List.getElem_of_mem (hs.blocks hfits before earlier front b hfront hb)
      have hindex := hs.draft.index_block hfits (List.getElem?_eq_some_iff.mpr ⟨hi, hget⟩)
      rw [hstep.blocks, blockAfter, List.foldl_append]
      refine List.mem_append_left _ (List.mem_mapIdx.mpr ⟨i, hi, ?_⟩)
      rw [hget, ← hindex]
      rfl

theorem exists_edit (hs : s.IsOrderly) {e : Edit} (hargs : ∀ id ∈ e.arguments, id ∈ s.returned) :
    ∃ t, s.edit e = .ok t ∧ t.IsOrderly ∧ t.draft.name = s.draft.name ∧
      t.edits = s.edits ++ [e] := by
  obtain ⟨answer, d, happly⟩ := e.exists_apply fun id hid => hs.returned id (hargs id hid)
  have htakes := Step.takes_of_apply happly
  refine ⟨_, ?_, hs.of_takes htakes hargs, htakes.name, ?_⟩
  · rw [edit, happly]
    rfl
  · simp [edits]

theorem exists_run (hs : s.IsOrderly) {edits : List Edit} (h : s.Refers edits) :
    ∃ t, s.run edits = .ok t ∧ t.IsOrderly ∧ t.draft.name = s.draft.name ∧
      t.edits = s.edits ++ edits := by
  induction edits generalizing s with
  | nil => exact ⟨s, rfl, hs, rfl, (List.append_nil _).symm⟩
  | cons e edits ih =>
      obtain ⟨hargs, hrest⟩ := h
      obtain ⟨t, hedit, ht, hname, hedits⟩ := exists_edit hs hargs
      obtain ⟨u, hrun, hu, huname, huedits⟩ := ih ht (hrest t hedit)
      refine ⟨u, ?_, hu, huname.trans hname, ?_⟩
      · rw [run, hedit]
        exact hrun
      · rw [huedits, hedits, List.append_assoc]
        rfl

end Session

end LoopPragma
