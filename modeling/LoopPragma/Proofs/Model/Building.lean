import LoopPragma.Proofs.Model.Resolution
import LoopPragma.Proofs.Model.Sessions
import LoopPragma.Proofs.Model.Tops

namespace LoopPragma

theorem NodeId.resolve_ofFin {kind : NodeKind} {n : Nat} (hn : n ≤ UInt32.size) (i : Fin n) :
    (ofFin i : NodeId kind).resolve n = .ok i :=
  resolve_eq_ok.mpr (index_ofIndex (i.isLt.trans_le hn))

theorem Numbered.length_le {kind : NodeKind} {ids : List (NodeId kind)} (h : Numbered ids) :
    ids.length ≤ UInt32.size := by
  rcases Nat.eq_zero_or_pos ids.length with h0 | hpos
  · omega
  · have hlast := h (ids.length - 1) (by omega)
    have := NodeId.index_lt ids[ids.length - 1]
    omega

-- No draft is accepted that has more nodes of a kind than there are ids.
theorem FunctionDraft.fitsIds_of_meets {d : FunctionDraft} (h : d.Meets .numbered) : d.FitsIds := by
  obtain ⟨hblocks, hloops, hregions⟩ := h
  intro kind
  cases kind with
  | block => simpa [count] using hblocks.length_le
  | loop => simpa [count] using hloops.length_le
  | region => simpa [count] using hregions.length_le

namespace Function

section Nodes

variable {d : FunctionDraft} {f : Function} (h : ofDraft d = .ok f)
include h

theorem exists_block_of_mem {b : BlockDraft} (hb : b ∈ d.blocks) :
    ∃ i, b.id.resolve f.numBlocks = .ok i ∧ f.blocks.get i = b.toBlock := by
  have hblocks : f.draft.blocks = d.blocks := by
    rw [draft_of_ofDraft h, FunctionDraft.completed]
  have hlength : f.numBlocks = d.blocks.length := by
    rw [← hblocks]
    simp [draft, allBlocks]
  have hfits : f.numBlocks ≤ UInt32.size :=
    hlength ▸ FunctionDraft.fitsIds_of_meets ((ofDraft_eq_ok h).2 .numbered) .block
  rw [← hblocks] at hb
  obtain ⟨i, -, rfl⟩ := List.mem_map.mp hb
  exact ⟨i, NodeId.resolve_ofFin hfits i, rfl⟩

theorem exists_loop_of_mem {lp : LoopDraft} (hlp : lp ∈ d.loops) :
    ∃ i, f.loop lp.id = .ok i ∧ f.loops.draft i = lp.completed := by
  have hloops : f.draft.loops = d.loops.map LoopDraft.completed :=
    congrArg FunctionDraft.loops (draft_of_ofDraft h)
  have hmem : lp.completed ∈ f.draft.loops := hloops ▸ List.mem_map_of_mem hlp
  obtain ⟨i, -, hi⟩ := List.mem_map.mp hmem
  have hid : lp.id = f.loopId i := by
    have hid := congrArg LoopDraft.id hi
    rw [LoopDraft.completed] at hid
    split at hid <;> exact hid.symm
  exact ⟨i, hid ▸ f.loop_loopId i, hi⟩

theorem exists_region_of_mem {r : RegionDraft} (hr : r ∈ d.regions) :
    ∃ i, f.region r.id = .ok i ∧ f.regions.draft i = r := by
  have hregions : f.draft.regions = d.regions := by
    have hdraft := congrArg FunctionDraft.regions (draft_of_ofDraft h)
    rwa [FunctionDraft.completed, if_neg (List.ne_nil_of_mem hr)] at hdraft
  rw [← hregions] at hr
  obtain ⟨i, -, rfl⟩ := List.mem_map.mp hr
  exact ⟨i, f.region_regionId i, rfl⟩

end Nodes

end Function

namespace Session

namespace Edit

def addsTop : Edit → Bool
  | addRegion none .. => true
  | _ => false

-- Regions are added, and all of them are detached.
def AllDetached (edits : List Edit) : Prop :=
  (∃ e ∈ edits, e.added? = some .region) ∧
    ∀ parent entering blocks, addRegion parent entering blocks ∉ edits

end Edit

def Step.detached? : Step → Option RegionId
  | ⟨.addDetachedRegion .., id⟩ => some id
  | _ => none

def detached (s : Session) : List RegionId := s.log.filterMap Step.detached?

-- Some attached region is given a detached one as its parent.
def NamesDetached (s : Session) : Prop :=
  ∃ p ∈ s.detached, ∃ entering blocks, .addRegion (some p) entering blocks ∈ s.edits

namespace IsOrderly

variable {s : Session} (hs : s.IsOrderly)
include hs

theorem mem_regions_iff {r : RegionDraft} :
    r ∈ s.draft.regions ↔ ∃ step ∈ s.log, step.region? = some r := by
  rw [hs.regions, List.mem_filterMap]

theorem regions_ne_nil_iff :
    s.draft.regions ≠ [] ↔ ∃ e ∈ s.edits, e.added? = some .region := by
  have hcount : s.draft.regions.length = _ := hs.count .region
  rw [← List.length_pos_iff, hcount, List.count_pos_iff, List.mem_filterMap]

theorem addRegion_mem_edits_iff {parent : Option RegionId} {entering : Option BlockId}
    {blocks : List BlockId} : .addRegion parent entering blocks ∈ s.edits ↔
      ∃ id, { id, parent, entering, blocks } ∈ s.draft.regions := by
  have hstep (step : Step) : step.edit = .addRegion parent entering blocks ↔
      ∃ id, step.region? = some { id, parent, entering, blocks } := by
    obtain ⟨e, id⟩ := step
    constructor
    · rintro rfl
      exact ⟨id, rfl⟩
    · rintro ⟨_, hr⟩
      cases e <;> cases hr
      rfl
  simp only [edits, List.mem_map, hstep, hs.mem_regions_iff]
  tauto

theorem mem_detached_iff {p : RegionId} :
    p ∈ s.detached ↔ ∃ r ∈ s.draft.regions, r.id = p ∧ r.detached = true := by
  have hstep (step : Step) : step.detached? = some p ↔
      ∃ r, step.region? = some r ∧ r.id = p ∧ r.detached = true := by
    obtain ⟨e, id⟩ := step
    constructor
    · intro hp
      cases e <;> cases hp
      exact ⟨_, rfl, rfl, rfl⟩
    · rintro ⟨r, hr, rfl, hdetached⟩
      cases e <;> cases hr
      · cases hdetached
      · rfl
  simp only [detached, List.mem_filterMap, hstep, hs.mem_regions_iff]
  tauto

theorem parent_of_detached {r : RegionDraft} (hr : r ∈ s.draft.regions) (h : r.detached = true) :
    r.parent = none := by
  obtain ⟨⟨e, id⟩, -, hstep⟩ := hs.mem_regions_iff.mp hr
  cases e <;> cases hstep
  · cases h
  · rfl

theorem tops_eq : s.draft.tops = s.edits.countP Edit.addsTop := by
  rw [FunctionDraft.tops, hs.regions, List.countP_filterMap, edits, List.countP_map]
  refine List.countP_congr fun step _ => ?_
  obtain ⟨e, id⟩ := step
  cases e with
  | addRegion parent => cases parent <;> rfl
  | _ => rfl

theorem all_detached (hknown : s.draft.Meets .knownRegions) (htops : s.draft.tops = 0) {i : Nat}
    {r : RegionDraft} (hr : s.draft.regions[i]? = some r) : r.detached = true := by
  induction i using Nat.strong_induction_on generalizing r with
  | h i ih =>
      have hmem := List.mem_of_getElem? hr
      by_contra hattached
      have hnot : ¬r.IsTop := by simpa using List.countP_eq_zero.mp htops r hmem
      cases hparent : r.parent with
      | none => exact hnot ⟨hparent, by simpa using hattached⟩
      | some p =>
          obtain ⟨q, hq, hsame⟩ := hknown r hmem p hparent
          have hlt := (hs.draft.regions i r hr).parent p hparent
          exact hattached (hsame.symm.trans (ih p.index hlt hq))

theorem allDetached_iff (hknown : s.draft.Meets .knownRegions) :
    Edit.AllDetached s.edits ↔ s.draft.regions ≠ [] ∧ s.draft.tops = 0 := by
  rw [Edit.AllDetached, hs.regions_ne_nil_iff]
  refine and_congr_right fun _ => ?_
  constructor
  · intro hnone
    refine List.countP_eq_zero.mpr fun r hr htop => ?_
    obtain ⟨hparent, hattached⟩ := of_decide_eq_true htop
    refine hnone r.parent r.entering r.blocks (hs.addRegion_mem_edits_iff.mpr ⟨r.id, ?_⟩)
    rwa [← hattached]
  · intro htops parent entering blocks hedit
    obtain ⟨id, hr⟩ := hs.addRegion_mem_edits_iff.mp hedit
    obtain ⟨i, hi⟩ := List.mem_iff_getElem?.mp hr
    cases hs.all_detached hknown htops hi

variable (hfits : s.draft.FitsIds)
include hfits

theorem namesDetached_iff : s.NamesDetached ↔ ¬s.draft.Meets .knownRegions := by
  constructor
  · rintro ⟨p, hp, entering, blocks, hedit⟩ hknown
    obtain ⟨q, hq, rfl, hdetached⟩ := hs.mem_detached_iff.mp hp
    obtain ⟨i, hi⟩ := List.mem_iff_getElem?.mp hq
    obtain ⟨id, hr⟩ := hs.addRegion_mem_edits_iff.mp hedit
    obtain ⟨q', hq', hsame⟩ := hknown _ hr q.id rfl
    rw [hs.draft.index_region hfits hi, hi] at hq'
    cases hq'
    cases hdetached.symm.trans hsame
  · intro hunknown
    simp only [FunctionDraft.Meets, not_forall] at hunknown
    obtain ⟨r, hr, p, hp, hnone⟩ := hunknown
    obtain ⟨i, hi⟩ := List.mem_iff_getElem?.mp hr
    obtain ⟨q, hq⟩ : ∃ q, s.draft.regions[p.index]? = some q := by
      have hlt := (hs.draft.regions i r hi).parent p hp
      have := (List.getElem?_eq_some_iff.mp hi).1
      exact ⟨_, List.getElem?_eq_getElem (by omega)⟩
    have hattached : r.detached = false := by
      by_contra h
      simp [hs.parent_of_detached hr (by simpa using h)] at hp
    have hdetached : q.detached = true := by
      by_contra h
      exact hnone ⟨q, hq, by simpa [hattached] using h⟩
    have hid : q.id = p := by rw [(hs.draft.regions _ q hq).id, NodeId.ofIndex_index]
    refine ⟨p, hs.mem_detached_iff.mpr ⟨q, List.mem_of_getElem? hq, hid, hdetached⟩, r.entering,
      r.blocks, hs.addRegion_mem_edits_iff.mpr ⟨r.id, ?_⟩⟩
    rwa [← hp, ← hattached]

theorem ofDraft_cases :
    (∃ id p, Function.ofDraft s.draft = .error ⟨s.draft.name, .regionParent id p⟩ ∧
        s.NamesDetached) ∨
      (Function.ofDraft s.draft = .error ⟨s.draft.name, .noTopRegion⟩ ∧
        ¬s.NamesDetached ∧ Edit.AllDetached s.edits) ∨
      (Function.ofDraft s.draft =
          .error ⟨s.draft.name, .topRegions (s.edits.countP Edit.addsTop)⟩ ∧
        ¬s.NamesDetached ∧ ¬Edit.AllDetached s.edits ∧ 2 ≤ s.edits.countP Edit.addsTop) ∨
      ∃ f, Function.ofDraft s.draft = .ok f ∧
        ¬s.NamesDetached ∧ ¬Edit.AllDetached s.edits ∧ s.edits.countP Edit.addsTop < 2 := by
  have hnames := hs.namesDetached_iff hfits
  rw [← hs.tops_eq]
  rcases Function.ofDraft_cases fun r hr => hs.draft.meets hfits hr with
    ⟨id, p, hbuilt, hunknown⟩ | ⟨hbuilt, hknown, hregions⟩ | ⟨hbuilt, hknown, htops⟩ |
      ⟨f, hbuilt, hknown, htops⟩
  · exact .inl ⟨id, p, hbuilt, hnames.mpr hunknown⟩
  · refine .inr (.inl ⟨hbuilt, fun h => hnames.mp h hknown, ?_⟩)
    exact (hs.allDetached_iff hknown).mpr hregions
  · refine .inr (.inr (.inl ⟨hbuilt, fun h => hnames.mp h hknown, fun hall => ?_, htops⟩))
    have := ((hs.allDetached_iff hknown).mp hall).2
    omega
  · refine .inr (.inr (.inr ⟨f, hbuilt, fun h => hnames.mp h hknown, fun hall => ?_, ?_⟩))
    · obtain ⟨hne, hzero⟩ := (hs.allDetached_iff hknown).mp hall
      rcases htops with hnil | hone
      · exact hne hnil
      · omega
    · rcases htops with hnil | hone
      · simp [FunctionDraft.tops, hnil]
      · omega

end IsOrderly

-- The id that a step returned denotes the node that the step added, as later steps left it.
structure Step.IsShown (step : Step) (later : List Step) (f : Function) : Prop where
  block : ∀ b, step.block? = some b → ∃ i, b.id.resolve f.numBlocks = .ok i ∧
    f.blocks.get i = blockAfter later b.id.index b.toBlock
  loop : ∀ lp, step.loop? = some lp → ∃ i, f.loop lp.id = .ok i ∧ f.loops.draft i = lp.completed
  region : ∀ r, step.region? = some r → ∃ i, f.region r.id = .ok i ∧ f.regions.draft i = r

-- What comes of a session. Of several complaints the first one in this order is made.
structure Outcome (s : Session) (built : Except ModelError Function) : Prop where
  error : ∀ e, built = .error e → e.function = s.draft.name ∧ e.defect.requirement ∉
    [.numbered, .knownBlocks, .knownLoops, .acyclicLoops, .acyclicRegions]
  regionParent : (∃ id p, built = .error ⟨s.draft.name, .regionParent id p⟩) ↔ s.NamesDetached
  noTopRegion : built = .error ⟨s.draft.name, .noTopRegion⟩ ↔
    ¬s.NamesDetached ∧ Edit.AllDetached s.edits
  topRegions : ∀ k, built = .error ⟨s.draft.name, .topRegions k⟩ ↔
    ¬s.NamesDetached ∧ ¬Edit.AllDetached s.edits ∧ k = s.edits.countP Edit.addsTop ∧ 2 ≤ k
  ok : (∃ f, built = .ok f) ↔
    ¬s.NamesDetached ∧ ¬Edit.AllDetached s.edits ∧ s.edits.countP Edit.addsTop < 2
  shown : ∀ f, built = .ok f → ∀ before step later, s.log = before ++ step :: later →
    step.IsShown later f

theorem IsOrderly.outcome {s : Session} (hs : s.IsOrderly) (hfits : s.draft.FitsIds) :
    s.Outcome (Function.ofDraft s.draft) where
  error e he := by
    obtain ⟨hname, hnot⟩ := Function.ofDraft_eq_error he
    refine ⟨hname, fun hmem => hnot (hs.draft.meets hfits ?_)⟩
    revert hmem
    cases e.defect.requirement <;> decide
  regionParent := by
    rcases hs.ofDraft_cases hfits with ⟨_, _, h, hc⟩ | ⟨h, hc⟩ | ⟨h, hc⟩ | ⟨_, h, hc⟩ <;>
      simp [h, hc]
  noTopRegion := by
    rcases hs.ofDraft_cases hfits with ⟨_, _, h, hc⟩ | ⟨h, hc⟩ | ⟨h, hc⟩ | ⟨_, h, hc⟩ <;>
      simp [h, hc]
  topRegions k := by
    rcases hs.ofDraft_cases hfits with ⟨_, _, h, hc⟩ | ⟨h, hc⟩ | ⟨h, hc⟩ | ⟨_, h, hc⟩ <;>
      simp [h, hc]
    all_goals omega
  ok := by
    constructor
    · rintro ⟨f, hf⟩
      rcases hs.ofDraft_cases hfits with ⟨_, _, h, -⟩ | ⟨h, -⟩ | ⟨h, -⟩ | ⟨_, -, hc⟩
      · cases h.symm.trans hf
      · cases h.symm.trans hf
      · cases h.symm.trans hf
      · exact hc
    · rintro ⟨hnames, hall, hfew⟩
      rcases hs.ofDraft_cases hfits with ⟨_, _, -, h⟩ | ⟨-, -, h⟩ | ⟨-, -, -, h⟩ | ⟨f, h, -⟩
      · exact absurd h hnames
      · exact absurd h hall
      · omega
      · exact ⟨f, h⟩
  shown f hf before step later hlog := by
    have hmem : step ∈ s.log := by simp [hlog]
    refine ⟨fun b hb => ?_, fun lp hlp => ?_, fun r hr => ?_⟩
    · exact Function.exists_block_of_mem hf (hs.blocks hfits before step later b hlog hb)
    · refine Function.exists_loop_of_mem hf ?_
      rw [hs.loops, List.mem_filterMap]
      exact ⟨step, hmem, hlp⟩
    · exact Function.exists_region_of_mem hf (hs.mem_regions_iff.mpr ⟨step, hmem, hr⟩)

-- A session in which every edit is given only ids that came back before goes through to its end,
-- and its regions alone decide what comes of it, as long as there is an id for every node.
theorem outcome_of_refers {name : String} {edits : List Edit}
    (hrefers : (start name).Refers edits)
    (hfits : ∀ kind, (edits.filterMap Edit.added?).count kind ≤ UInt32.size) :
    ∃ s, (start name).run edits = .ok s ∧ s.draft.name = name ∧ s.edits = edits ∧
      s.Outcome (Function.ofDraft s.draft) := by
  obtain ⟨s, hrun, hs, hname, hedits⟩ := exists_run (isOrderly_start name) hrefers
  refine ⟨s, hrun, hname, hedits, hs.outcome fun kind => ?_⟩
  rw [hs.count, hedits]
  exact hfits kind

-- A loop around a block that calls something, and its reduced form as a detached region.
def helperEdits : List Edit :=
  [.addBlock [1], .addBlock [2, 3], .changeBlock ⟨1⟩ (.call { callee := some "helper" }),
    .addLoop none ⟨1⟩ (some ⟨1⟩) [⟨1⟩] (some 2), .addRegion none none [⟨0⟩, ⟨1⟩],
    .addDetachedRegion (some ⟨0⟩) [⟨1⟩], .addRegion (some ⟨0⟩) (some ⟨0⟩) [⟨1⟩],
    .changeBlock ⟨1⟩ .parallel]

def helperSession : Session := ((start "g").run helperEdits).toOption.get (by decide +kernel)

theorem helperEdits_accepted : (start "g").Refers helperEdits ∧
    (start "g").run helperEdits = .ok helperSession ∧
      ∃ f, Function.ofDraft helperSession.draft = .ok f ∧
        ∃ i, (⟨1⟩ : BlockId).resolve f.numBlocks = .ok i ∧
          f.blocks.get i = { lines := [2, 3], calls := [{ callee := some "helper" }]
                             tags := { parallel := true } } := by
  have hrefers : (start "g").Refers helperEdits := by decide +kernel
  have hsession : (start "g").run helperEdits = .ok helperSession := eq_ok_get _
  obtain ⟨s, hrun, -, hedits, houtcome⟩ :=
    outcome_of_refers hrefers fun kind => by cases kind <;> decide
  obtain rfl : helperSession = s := Except.ok.inj (hsession.symm.trans hrun)
  have hdetached : helperSession.detached = [⟨1⟩] := by decide +kernel
  have hnames : ¬helperSession.NamesDetached := by
    rintro ⟨p, hp, entering, blocks, hedit⟩
    rw [hdetached, List.mem_singleton] at hp
    rw [hedits, hp] at hedit
    simp [helperEdits] at hedit
  have hall : ¬Edit.AllDetached helperSession.edits := by
    rw [hedits]
    exact fun h => h.2 none none [⟨0⟩, ⟨1⟩] (by simp [helperEdits])
  obtain ⟨f, hf⟩ := houtcome.ok.mpr ⟨hnames, hall, by rw [hedits]; decide⟩
  have hshown := houtcome.shown f hf (helperSession.log.take 1)
    ⟨.addBlock [2, 3], (⟨1⟩ : BlockId)⟩ (helperSession.log.drop 2) rfl
  obtain ⟨i, hi, hblock⟩ := hshown.block _ rfl
  refine ⟨hrefers, hsession, f, hf, i, hi, hblock.trans ?_⟩
  decide +kernel

end Session

end LoopPragma
