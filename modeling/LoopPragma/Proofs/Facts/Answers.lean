import LoopPragma.FactTable
import LoopPragma.Proofs.Facts.Marks
import LoopPragma.Proofs.Model.Attached
import LoopPragma.Proofs.Model.Checks

namespace LoopPragma

namespace Function

variable {f : Function} {id : RegionId}

theorem region_eq_ok_iff {r : f.RegionIx} : f.region id = .ok r ↔ f.regionId r = id := by
  constructor
  · intro h
    have hindex := NodeId.resolve_eq_ok.mp h
    rw [regionId, NodeId.ofFin, ← hindex, NodeId.ofIndex_index]
  · rintro rfl
    exact f.region_regionId r

theorem region_eq_error_iff {e : Fault} :
    f.region id = .error e ↔ (∀ r, f.regionId r ≠ id) ∧ e = ⟨.region, id⟩ := by
  constructor
  · intro h
    have hfault := NodeId.resolve_eq_error.mp h
    refine ⟨fun r hr => ?_, hfault.2⟩
    rw [region_eq_ok_iff.mpr hr] at h
    cases h
  · rintro ⟨hnone, rfl⟩
    cases hregion : f.region id with
    | ok r => exact absurd (region_eq_ok_iff.mp hregion) (hnone r)
    | error e => rw [(NodeId.resolve_eq_error.mp hregion).2]

end Function

namespace FactTable

variable (t : FactTable) (settings : Settings) (f : Function)

-- An id that stands for a node never leads to a fault, so the answers about nodes are plain values.
def isBounded (r : f.RegionIx) : Bool :=
  match t.factsOf f with
  | none => !f.isDetached r
  | some facts =>
    f.regionId r ∉ facts.incomplete && (!f.isDetached r || f.regionId r ∈ facts.analyzed)

def isAnalyzable (lp : f.LoopIx) : Bool :=
  ((f.loops.info lp).header :: (f.loopBlocks lp).toList).all fun b =>
    (f.innermostRegion b).any (t.isBounded f)

def nestsSafely (r : f.RegionIx) : Bool :=
  !(t.factsOf f).any (fun facts => f.regionId r ∈ facts.unsafeScopes) && f.nestsCleanly r

def linesOf (r : f.RegionIx) : Option LineSpan :=
  ((t.factsOf f).bind fun facts => facts.scopeLines[f.regionId r]?).or (f.debugLines r)

-- Whether a reduced form is turned down before it is looked up.
def turnsDown (x : RegionId) : Bool :=
  !t.isSafe f x || (t.factsOf f).any fun facts => x ∈ facts.incomplete

-- Whether the loop that a region stands for is eligible, so that a walk over loops turns back.
def stops (r : f.RegionIx) : Bool :=
  (f.ownerLoop r).any fun lp =>
    (!settings.emitParallel || f.isParallel settings lp) && t.isAnalyzable f lp &&
      t.nestsSafely f r

variable {t settings f}

theorem isComplete_regionId (r : f.RegionIx) :
    t.isComplete f (f.regionId r) = .ok (t.isBounded f r) := by
  rw [isComplete, isBounded]
  cases t.factsOf f with
  | none => simp [f.region_regionId, Except.map]
  | some facts => by_cases h : f.regionId r ∈ facts.incomplete <;>
      simp [h, f.region_regionId, Except.map]

theorem exists_region_of_isComplete {id : RegionId} (h : t.isComplete f id = .ok true) :
    ∃ r, f.regionId r = id := by
  cases hregion : f.region id with
  | ok r => exact ⟨r, Function.region_eq_ok_iff.mp hregion⟩
  | error e =>
      simp only [isComplete, hregion, Except.map] at h
      cases hfacts : t.factsOf f with
      | none => simp [hfacts] at h
      | some facts => by_cases hid : id ∈ facts.incomplete <;> simp [hfacts, hid] at h

theorem isSafelyNested_regionId (r : f.RegionIx) :
    t.isSafelyNested f (f.regionId r) = .ok (t.nestsSafely f r) := by
  rw [isSafelyNested, nestsSafely, f.region_regionId]
  by_cases h : (t.factsOf f).any fun facts => f.regionId r ∈ facts.unsafeScopes <;>
    simp [h, Except.map]

theorem lines_regionId (r : f.RegionIx) : t.lines f (f.regionId r) = .ok (t.linesOf f r) := by
  rw [lines, linesOf]
  cases (t.factsOf f).bind fun facts => facts.scopeLines[f.regionId r]? with
  | none =>
      rw [f.region_regionId]
      rfl
  | some span => rfl

theorem allM_eq_all {α : Type} {test : α → Consult FactTable Bool} {answer : α → Bool}
    {xs : List α} (h : ∀ a ∈ xs, test a t = .ok (answer a) t) :
    xs.allM test t = .ok (xs.all answer) t := by
  induction xs with
  | nil => rfl
  | cons a xs ih =>
      have ha := h a List.mem_cons_self
      have hxs := ih fun b hb => h b (List.mem_cons_of_mem _ hb)
      simp only [List.allM, bind, EStateM.bind, ha, List.all_cons]
      cases answer a with
      | true => exact hxs
      | false => rfl

theorem isAnalyzable_eq (lp : f.LoopIx) :
    analyses.isAnalyzable f lp t = .ok (t.isAnalyzable f lp) t := by
  rw [Analyses.isAnalyzable, Function.allRegionsOf, isAnalyzable]
  apply allM_eq_all
  intro b _
  cases f.innermostRegion b with
  | none => rfl
  | some r =>
      show ofExcept (t.isComplete f (f.regionId r)) t = _
      rw [isComplete_regionId]
      rfl

section Marks

variable {u : FactTable} (h : u.unmarked = t.unmarked)

include h

theorem isSafe_of_unmarked (id : RegionId) : u.isSafe f id = t.isSafe f id := by
  rw [← isSafe_unmarked u, h, isSafe_unmarked]

theorem reducedForm_of_unmarked (id : RegionId) : u.reducedForm f id = t.reducedForm f id := by
  rw [← reducedForm_unmarked u, h, reducedForm_unmarked]

theorem lines_of_unmarked (r : f.RegionIx) : u.lines f (f.regionId r) = .ok (t.linesOf f r) := by
  rw [← lines_unmarked u, h, lines_unmarked, lines_regionId]

theorem isSafelyNested_of_unmarked (r : f.RegionIx) :
    u.isSafelyNested f (f.regionId r) = .ok (t.nestsSafely f r) := by
  rw [← isSafelyNested_unmarked u, h, isSafelyNested_unmarked, isSafelyNested_regionId]

theorem isComplete_of_unmarked {r : f.RegionIx} (hr : f.isDetached r = false) :
    u.isComplete f (f.regionId r) = .ok (t.isBounded f r) := by
  rw [← isComplete_unmarked hr, h, isComplete_unmarked hr, isComplete_regionId]

theorem isBounded_of_unmarked {r : f.RegionIx} (hr : f.isDetached r = false) :
    u.isBounded f r = t.isBounded f r := by
  have hanswer := isComplete_of_unmarked h hr
  rw [isComplete_regionId] at hanswer
  exact Except.ok.inj hanswer

-- No loop runs through a detached region.
theorem isAnalyzable_of_unmarked (lp : f.LoopIx) : u.isAnalyzable f lp = t.isAnalyzable f lp := by
  have hregion (b : f.BlockIx) :
      (f.innermostRegion b).any (u.isBounded f) = (f.innermostRegion b).any (t.isBounded f) := by
    cases hb : f.innermostRegion b with
    | none => rfl
    | some r =>
        rw [Option.any_some, Option.any_some,
          isBounded_of_unmarked h (Function.attached_of_innermostRegion hb)]
  simp only [isAnalyzable, hregion]

-- A reduced form that was asked for is complete as soon as it stands for a region, unless it is
-- listed as incomplete.
theorem isComplete_of_analyzeReduced {id x : RegionId} (hform : t.reducedForm f id = some x) :
    (u.analyzeReduced f id).isComplete f x =
      if (t.factsOf f).any fun facts => x ∈ facts.incomplete then .ok false
      else (f.region x).map fun _ => true := by
  obtain ⟨facts, hfacts, hmarked⟩ := factsOf_analyzeReduced hform
  rw [isComplete_analyzeReduced h (by rw [reducedForm_of_unmarked h, hform]), isComplete, hmarked]
  simp [hfacts]

end Marks

end FactTable

end LoopPragma
