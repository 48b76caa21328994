import LoopPragma.Proofs.Model.Attached
import LoopPragma.Proofs.Placement.Carryover
import LoopPragma.Proofs.Placement.Triple

namespace LoopPragma

namespace Function

-- Every edge back to a header begins in the region.
def HoldsLatches (f : Function) (r : f.RegionIx) : Prop :=
  ∀ (lp : f.LoopIx) (b : f.BlockIx), (f.loops.info lp).latch = some b → b ∈ f.regionBlocks r

instance (f : Function) (r : f.RegionIx) : Decidable (f.HoldsLatches r) :=
  inferInstanceAs (Decidable (∀ lp b, (f.loops.info lp).latch = some b → b ∈ f.regionBlocks r))

variable {f : Function}

theorem isParallel_of_holdsLatches {r : f.RegionIx} (hlatches : f.HoldsLatches r)
    (hmark : f.hasParallelMark r = false) (settings : Settings) (lp : f.LoopIx) :
    f.isParallel settings lp = false := by
  rw [isParallel, latchTags]
  cases hlatch : (f.loops.info lp).latch with
  | none => rfl
  | some b =>
      have hb : (f.blocks.get b).tags.parallel = false := by
        have hunmarked := List.any_eq_false.mp hmark b (hlatches lp b hlatch)
        simpa using hunmarked
      rw [Option.map_some, Option.any_some, hb, Bool.false_and]

end Function

open Place

variable {σ : Type} {j : Job σ}

namespace Job

-- No question is asked about a loop that is not parallel.
theorem visitLoopOf_of_not_isParallel (hemit : j.settings.emitParallel)
    (hplain : ∀ lp, j.function.isParallel j.settings lp = false) (r : j.function.RegionIx)
    (s : Progress σ) : j.visitLoopOf r s = .ok true s := by
  rw [visitLoopOf]
  cases j.function.ownerLoop r with
  | none => rfl
  | some lp =>
      have heligible : j.isEligible r lp s = .ok false s := by
        rw [isEligible, if_pos]
        · rfl
        · rw [hplain lp, hemit]
          rfl
      dsimp only
      rw [bind_of_ok heligible]
      rfl

theorem markLoops_of_not_isParallel (hemit : j.settings.emitParallel)
    (hplain : ∀ lp, j.function.isParallel j.settings lp = false) (root : j.function.RegionIx)
    (s : Progress σ) : j.markLoops root s = .ok ⟨⟩ s := by
  have hwalk : Triple (· = s) (j.markLoops root) (fun _ => (· = s)) fun _ => False := by
    refine .walk _ (fun r t ht => ?_) [root]
    rw [visitLoopOf_of_not_isParallel hemit hplain]
    exact .ok ht
  obtain ⟨_, _, hrun, rfl⟩ := hwalk.exists_ok rfl
  exact hrun

theorem walkFrom_of_not_isWorthWalking {root : j.function.RegionIx}
    (hlatches : j.function.HoldsLatches root) (hgate : j.isWorthWalking root = false)
    (s : Progress σ) : j.walkFrom root s = .ok ⟨⟩ s := by
  simp only [isWorthWalking, Bool.or_eq_false_iff, Bool.not_eq_false'] at hgate
  obtain ⟨⟨hmode, hemit⟩, hmark⟩ := hgate
  rw [walkFrom, hmode]
  exact markLoops_of_not_isParallel hemit
    (fun lp => Function.isParallel_of_holdsLatches hlatches hmark _ lp) root s

variable (j) in
def ungatedBody : Place σ Unit := do
  j.countLoops
  j.walkFrom j.function.startRegion

theorem annotateBody_eq_ungatedBody (hlatches : j.function.HoldsLatches j.function.startRegion) :
    j.annotateBody = j.ungatedBody := by
  rw [annotateBody, ungatedBody]
  refine congrArg _ (funext fun _ => ?_)
  cases hgate : j.isWorthWalking j.function.startRegion with
  | true => rfl
  | false => exact funext fun s => (walkFrom_of_not_isWorthWalking hlatches hgate s).symm

variable (j) in
def annotateUngated : Share σ Annotations := fun shared =>
  if j.function.isDeclaration then .ok ∅ shared
  else match j.ungatedBody { toShared := shared } with
    | .ok _ s => .ok s.annotations s.toShared
    | .error e s => .error e s.toShared

-- Whenever the gate keeps the walk back, the walk would ask nothing, count nothing, write nothing
-- and register nothing. So the gate makes no difference to any function.
theorem annotate_eq_annotateUngated (j : Job σ)
    (hlatches : j.function.HoldsLatches j.function.regions.top) :
    (j.settings.emitParallel → j.settings.coalesce = false →
      j.function.hasParallelMark j.function.regions.top = false →
        ∀ s : Progress σ, j.walkFrom j.function.regions.top s = .ok ⟨⟩ s) ∧
      j.annotate = j.annotateUngated := by
  constructor
  · intro hemit hmode hmark
    exact walkFrom_of_not_isWorthWalking hlatches (by simp [isWorthWalking, hemit, hmode, hmark])
  · rw [← j.function.startRegion_eq_top] at hlatches
    funext shared
    rw [annotate, annotateBody_eq_ungatedBody hlatches]
    rfl

end Job

open FactTable

-- Two loops one after the other. The region at the top ends before the second one, which has a
-- parallel mark but no latch.
def strayMarkDraft : FunctionDraft where
  name := "f"
  blocks := [{ id := ⟨0⟩, lines := [4] }, { id := ⟨1⟩, lines := [5] }, { id := ⟨2⟩, lines := [6] },
    { id := ⟨3⟩, lines := [8], tags := { parallel := true } }]
  loops := [{ id := ⟨0⟩, header := ⟨1⟩, latch := some ⟨2⟩, blocks := [⟨1⟩, ⟨2⟩],
              startLine := some 5 },
    { id := ⟨1⟩, header := ⟨3⟩, blocks := [⟨3⟩], startLine := some 8 }]
  regions := [{ id := ⟨0⟩, blocks := [⟨0⟩, ⟨1⟩, ⟨2⟩] },
    { id := ⟨1⟩, parent := some ⟨0⟩, entering := some ⟨2⟩, blocks := [⟨3⟩] }]

def strayMark : Function := (Function.ofDraft strayMarkDraft).toOption.get (by decide +kernel)

theorem strayMark_ungated :
    let j := job { emitParallel := true } ⟨[strayMark], by decide⟩ strayMark
    let top := strayMark.regions.top
    strayMark.HoldsLatches top ∧ strayMark.hasParallelMark top = false ∧
      (∃ r ∈ strayMark.regions.nesting.children top, strayMark.hasParallelMark r) ∧
      (∀ s, j.walkFrom top s = .ok ⟨⟩ s) ∧ j.annotate = j.annotateUngated := by
  have hlatches : strayMark.HoldsLatches strayMark.regions.top := by decide +kernel
  have hmark : strayMark.hasParallelMark strayMark.regions.top = false := by decide +kernel
  have hungated := Job.annotate_eq_annotateUngated
    (job { emitParallel := true } ⟨[strayMark], by decide⟩ strayMark) hlatches
  exact ⟨hlatches, hmark, by decide +kernel, hungated.1 rfl rfl hmark, hungated.2⟩

end LoopPragma
