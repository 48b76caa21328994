import LoopPragma.Proofs.Counts.Total
import LoopPragma.Proofs.Nesting.Frontier
import LoopPragma.Proofs.Placement.Visits

namespace LoopPragma

open Counts Place

-- At no moment were more loops annotated than analyzable, and now `credit` more may be.
structure Credit (credit : Nat) (events : List Event) : Prop where
  covered : ∀ moment, moment <+: events →
    total .annotatedLoops moment ≤ total .analyzableLoops moment
  credit : total .annotatedLoops events + credit ≤ total .analyzableLoops events

namespace Credit

variable {credit credit' : Nat} {events : List Event}

theorem nil : Credit 0 [] where
  covered := by
    intro moment h
    rw [List.prefix_nil.mp h]
    exact Nat.le_refl _
  credit := Nat.le_refl _

theorem mono (h : Credit credit events) (hle : credit' ≤ credit) : Credit credit' events where
  covered := h.covered
  credit := by
    have := h.credit
    omega

theorem concat (h : Credit credit events) {event : Event}
    (hpaid : event.amount .annotatedLoops + credit' ≤ credit + event.amount .analyzableLoops) :
    Credit credit' (events ++ [event]) := by
  have hcredit := h.credit
  refine ⟨fun moment hm => ?_, ?_⟩
  · rcases List.prefix_concat_iff.mp hm with rfl | hm
    · rw [total_append, total_append, total_singleton, total_singleton]
      omega
    · exact h.covered moment hm
  · rw [total_append, total_append, total_singleton, total_singleton]
    omega

end Credit

-- A placement that may spend `before` and leaves `after` to spend.
def Spends {σ α : Type} (before : Nat) (x : Place σ α) (after : Nat) : Prop :=
  Triple (fun s => Credit before s.events.toList) x (fun _ s => Credit after s.events.toList)
    fun s => Credit 0 s.events.toList

namespace Spends

variable {σ α β : Type} {x : Place σ α} {a b c : Nat}

theorem bind {f : α → Place σ β} (hx : Spends a x b) (hf : ∀ v, Spends b (f v) c) :
    Spends a (x >>= f) c :=
  Triple.bind hx hf

theorem pure (v : α) (hle : b ≤ a) : Spends a (Pure.pure v : Place σ α) b :=
  Triple.pure fun _ hs => hs.mono hle

theorem ite {p : Prop} [Decidable p] {y : Place σ α} (hx : p → Spends a x b)
    (hy : ¬p → Spends a y b) : Spends a (if p then x else y) b := by
  by_cases hp : p
  · rw [if_pos hp]
    exact hx hp
  · rw [if_neg hp]
    exact hy hp

theorem of_events {f : Progress σ → Progress σ} (h : ∀ s, (f s).events = s.events) :
    Spends a (modify f : Place σ PUnit) a :=
  Triple.modify fun s hs => by rwa [h s]

theorem ask (q : Consult σ α) : Spends a (Place.ask q) a :=
  Triple.ask (fun _ hs _ _ _ => hs) fun _ hs _ => hs.mono (Nat.zero_le a)

theorem record {event : Event}
    (h : event.amount .annotatedLoops + b ≤ a + event.amount .analyzableLoops) :
    Spends a (Place.record event : Place σ Unit) b := by
  apply Triple.modify
  intro s hs
  rw [Array.toList_push]
  exact hs.concat h

theorem count {counter : Counter} (amount : Nat) (hannotated : counter ≠ .annotatedLoops) :
    Spends a (Place.count counter amount : Place σ Unit) a :=
  record (by simp [Event.amount, hannotated])

theorem countAnnotated {amount : Nat} (hpaid : amount + b ≤ a) :
    Spends a (Place.count .annotatedLoops amount : Place σ Unit) b := by
  refine record ?_
  have hle : (UInt64.ofNat amount).toNat ≤ amount := by
    rw [UInt64.toNat_ofNat']
    exact Nat.mod_le _ _
  simp only [Event.amount, if_true, reduceCtorEq, if_false]
  omega

theorem countAnalyzable {amount : Nat} (hfits : amount < UInt64.size) (hdue : b ≤ a + amount) :
    Spends a (Place.count .analyzableLoops amount : Place σ Unit) b := by
  refine record ?_
  have heq : (UInt64.ofNat amount).toNat = amount := UInt64.toNat_ofNat_of_lt' hfits
  simp only [Event.amount, if_true, reduceCtorEq, if_false]
  omega

end Spends

namespace Job

variable {σ : Type} {j : Job σ} {credit : Nat}

theorem length_nest_lt (lp : j.function.LoopIx) : (j.function.nest lp).length < UInt64.size := by
  have hle : (j.function.nest lp).length ≤ j.function.loops.size := Nesting.length_nest_le lp
  have hsize := j.function.loops.size_le
  have hword : UInt32.size < UInt64.size := by decide
  omega

theorem length_parallelNest_le (lp : j.function.LoopIx) :
    (j.parallelNest lp).length ≤ (j.function.nest lp).length :=
  (List.length_filterMap_le _ _).trans (Nesting.length_prune_le _ lp)

section Steps

theorem spends_extract (target : Target) : Spends credit (j.extract target) credit := by
  have hname : Spends credit (freshName : Place σ String) credit := Triple.modifyGet fun _ h => h
  refine .bind hname fun _ => .bind (.ask _) fun _ => ?_
  refine .bind (.record ?_) fun _ => .pure _ (le_refl _)
  simp [Event.amount]

theorem spends_registerCallees (blocks : List j.function.BlockIx) :
    Spends credit (j.registerCallees blocks) credit :=
  .of_events fun _ => rfl

theorem spends_annotate (line : UInt32) (directive : String) :
    Spends credit (Place.annotate line directive : Place σ Unit) credit :=
  .of_events fun _ => rfl

theorem spends_annotateNew (line : UInt32) (directive : String) :
    Spends credit (annotateNew line directive : Place σ Bool) credit :=
  .bind (b := credit) (fun _ hs => .ok hs) fun _ =>
    .bind (spends_annotate line directive) fun _ => .pure _ (le_refl _)

theorem spends_merge (comments : Annotations) :
    Spends credit (merge comments : Place σ Unit) credit :=
  .of_events fun _ => rfl

-- A nest that is counted as analyzable pays for each of its loops.
theorem spends_countNest (lp : j.function.LoopIx) :
    Spends 0 (j.countNest .analyzableLoops lp) (j.function.nest lp).length :=
  .countAnalyzable (length_nest_lt lp) (Nat.zero_add _).ge

theorem spends_stampNest (credit : Nat) (lp : j.function.LoopIx) (guard : String) :
    Triple (fun s => Credit (credit + (j.parallelNest lp).length) s.events.toList)
      (j.stampNest lp guard)
      (fun stamped s => Credit credit s.events.toList ∧ stamped = (j.parallelNest lp).length)
      fun s => Credit 0 s.events.toList := by
  have hstamp (entry : j.function.LoopIx × UInt32) (credit : Nat) :
      Spends (credit + 1) (do
        count .annotatedLoops 1
        Place.annotate entry.2 (j.settings.family.loopDirective guard) : Place σ PUnit) credit :=
    .bind (.countAnnotated (Nat.add_comm 1 credit).le) fun _ => spends_annotate _ _
  have hstamps (stamped : List (j.function.LoopIx × UInt32)) :
      Spends (credit + stamped.length) (stamped.forM fun entry => do
        count .annotatedLoops 1
        Place.annotate entry.2 (j.settings.family.loopDirective guard) : Place σ PUnit) credit := by
    induction stamped with
    | nil => exact .pure _ (le_refl _)
    | cons entry stamped ih => exact .bind (hstamp entry _) fun _ => ih
  exact Triple.bind (hstamps _) fun _ => Triple.pure fun _ hs => ⟨hs, rfl⟩

end Steps

theorem inquiry_credit : j.Inquiry fun s => Credit 0 s.events.toList where
  isComplete _ := Spends.ask _
  analyzeReduced _ := Spends.ask _
  reducedForm _ := Spends.ask _
  isSafe _ := Spends.ask _
  lines _ := Spends.ask _
  isSafelyNested _ := Spends.ask _
  counted _ _ h := Spends.count _ h
  analyzed _ := Spends.record (by simp [Event.amount])

section Loops

theorem spends_commitLoop (lp : j.function.LoopIx) (startLine : UInt32) :
    Spends (j.function.nest lp).length (j.commitLoop lp startLine) 0 := by
  refine .bind (spends_extract _) fun answer => ?_
  rcases answer with ⟨computation, _ | extraction⟩
  · exact .pure _ (Nat.zero_le _)
  · refine .bind (spends_registerCallees _) fun _ => .bind (spends_merge _) fun _ => ?_
    refine .ite (fun _ => ?_) fun _ => ?_
    · have hle := length_parallelNest_le (j := j) lp
      have hstamp : Spends (j.function.nest lp).length (j.stampNest lp extraction.guard) 0 :=
        (spends_stampNest 0 lp _).mono (fun _ hs => hs.mono (by omega))
          (fun _ _ h => h.1) fun _ h => h
      exact .bind hstamp fun _ => .pure _ (le_refl _)
    · exact .countAnnotated (le_refl _)

theorem spends_visitLoopOf (r : j.function.RegionIx) :
    Spends 0 (j.visitLoopOf r) 0 := by
  rw [visitLoopOf]
  cases j.function.ownerLoop r with
  | none => exact .pure _ (le_refl _)
  | some lp =>
      refine .bind (inquiry_credit.isEligible r lp) fun eligible =>
        .ite (fun _ => ?_) fun _ => .pure _ (le_refl _)
      refine .bind (spends_countNest lp) fun _ => ?_
      cases j.function.startLine lp with
      | none => exact .pure _ (Nat.zero_le _)
      | some startLine => exact .bind (spends_commitLoop lp startLine) fun _ => .pure _ (le_refl _)

end Loops

section Regions

-- Where no directive is stamped, the kernel directive stands for the loop itself.
theorem spends_writeKernel (restriction : Option String) (lp : j.function.LoopIx) :
    Spends (j.function.nest lp).length (j.writeKernel restriction lp) 0 := by
  have hpos : 1 ≤ (j.function.nest lp).length := Nesting.length_nest_pos lp
  have hle := length_parallelNest_le (j := j) lp
  rw [writeKernel]
  cases j.function.startLine lp with
  | none => exact .pure _ (Nat.zero_le _)
  | some line =>
      refine .ite (fun _ => .ite (fun _ => ?_) fun _ => .pure _ (Nat.zero_le _)) fun _ => ?_
      · have hstamp (new : Bool) : Spends (j.function.nest lp).length
            (do if (← j.stampNest lp "") = 0 && new then count .annotatedLoops 1) 0 := by
          have hnest : Triple (fun s => Credit (j.function.nest lp).length s.events.toList)
              (j.stampNest lp "") (fun stamped s =>
                Credit ((j.function.nest lp).length - (j.parallelNest lp).length) s.events.toList ∧
                  stamped = (j.parallelNest lp).length)
              fun s => Credit 0 s.events.toList :=
            (spends_stampNest _ lp "").mono (fun _ hs => hs.mono (by omega)) (fun _ _ h => h)
              fun _ h => h
          refine Triple.bind hnest fun stamped => Triple.of_fact fun hstamped => ?_
          refine Spends.ite (fun hnone => ?_) fun _ => .pure _ (Nat.zero_le _)
          have hzero : stamped = 0 := by simp_all
          exact .countAnnotated (by omega)
        cases j.settings.family.kernelDirective? restriction with
        | none => exact .bind (.pure _ (le_refl _)) hstamp
        | some directive => exact .bind (spends_annotateNew _ _) hstamp
      · cases j.settings.family.kernelDirective? restriction with
        | none => exact .pure _ (Nat.zero_le _)
        | some directive =>
            exact .bind (spends_annotate _ _) fun _ => .countAnnotated hpos

theorem spends_writeKernels (r : j.function.RegionIx) (restriction : Option String) :
    Spends 0 (j.writeKernels r restriction) 0 := by
  refine .ite (fun _ => ?_) fun _ => .pure _ (le_refl _)
  refine Maintains.forM fun lp _ => Spends.bind (spends_countNest lp) fun _ => ?_
  exact spends_writeKernel restriction lp

theorem spends_commitRegion (id : RegionId) (lines : LineSpan) :
    Spends 0 (j.commitRegion id lines) 0 := by
  refine .bind (spends_extract _) fun answer => ?_
  rcases answer with ⟨computation, _ | extraction⟩
  · exact .pure _ (le_refl _)
  · refine .bind (b := 0) ?_ fun r => ?_
    · cases j.function.region id with
      | ok r => exact .pure _ (le_refl _)
      | error e => exact fun _ h => .error h
    · refine .bind (spends_registerCallees _) fun _ => .bind (spends_merge _) fun _ => ?_
      exact .bind (spends_writeKernels r _) fun _ => spends_annotate _ _

end Regions

section Run

theorem spends_annotateBody : Spends 0 j.annotateBody 0 := by
  have hwalk (root : j.function.RegionIx) : Spends 0 (j.walkFrom root) 0 := by
    refine .ite (fun _ => ?_) fun _ => ?_
    · exact inquiry_credit.offloadRegions (fun id lines _ => spends_commitRegion id lines) root
    · exact Maintains.walk _ spends_visitLoopOf [root]
  refine .bind inquiry_credit.countLoops fun _ => ?_
  exact .ite (fun _ => hwalk _) fun _ => .pure _ (le_refl _)

theorem maintains_annotate_credit (j : Job σ) :
    Maintains (fun shared => Credit 0 shared.events.toList) j.annotate :=
  maintains_annotate_of_body spends_annotateBody

end Run

end Job

-- At every moment of a run over a program, the run may end in a fault, at least as many loops are
-- analyzable as are annotated, and no counter is lower than at any moment before. The report counts
-- what has happened in the end.
theorem Program.annotated_le_analyzable {σ : Type} (p : Program) (A : Analyses σ)
    (settings : Settings) (state : σ) :
    let run := (lastState (p.annotate A settings { state })).events.toList
    (∀ moment, moment <+: run →
      (ofEvents moment).annotatedLoops ≤ (ofEvents moment).analyzableLoops) ∧
    (∀ later, later <+: run → ∀ moment, moment <+: later → ∀ counter,
      (ofEvents moment).get counter ≤ (ofEvents later).get counter) ∧
    ∀ report shared, p.annotate A settings { state } = .ok report shared →
      report.counts = ofEvents run := by
  intro run
  have hcredit : Credit 0 run := by
    have hstart : Credit 0 (#[] : Array Event).toList := .nil
    refine Maintains.lastState (I := fun shared : Shared σ => Credit 0 shared.events.toList) ?_
      hstart
    refine .bind (.mapM fun f _ => .bind (Job.maintains_annotate_credit _) fun _ => .pure _) ?_
    exact fun _ => .bind .get fun _ => .pure _
  refine ⟨fun moment h => ?_, fun later _ moment h counter => ?_, fun report shared h => ?_⟩
  · exact get_ofEvents_le (c := .annotatedLoops) (d := .analyzableLoops) (hcredit.covered moment h)
  · exact get_ofEvents_le (total_mono h)
  · have hcounts : Triple (fun _ => True) (p.annotate A settings)
        (fun report shared => report.counts = ofEvents shared.events.toList) fun _ => True :=
      .bind (Triple.trivial _) fun _ _ _ => .ok rfl
    have hend := hcounts { state } trivial
    rw [h] at hend
    cases hend with
    | ok hend => simpa only [run, h, lastState] using hend

end LoopPragma
