import LoopPragma.Proofs.Nesting.Descent
import LoopPragma.Proofs.Placement.Course

namespace LoopPragma

open Place

section Walks

open Nesting

variable {n : Nat} {N : Nesting n} {P : Fin n → Prop} {turned pending : List (Fin n)} {i : Fin n}

variable (N P) in
structure Spread (nodes : List (Fin n)) : Prop where
  apart : nodes.Pairwise (Apart (N := N))
  kind : ∀ i ∈ nodes, P i

theorem Spread.of_append (h : Spread N P (turned ++ pending)) : Spread N P turned where
  apart := (List.pairwise_append.mp h.apart).1
  kind := fun i hi => h.kind i (List.mem_append_left _ hi)

theorem Spread.children (hchildren : ∀ i, P i → ∀ c ∈ N.children i, P c)
    (h : Spread N P (turned ++ i :: pending)) :
    Spread N P (turned ++ (N.children i ++ pending)) := by
  obtain ⟨hturned, hpending, hacross⟩ := List.pairwise_append.mp h.apart
  refine ⟨List.pairwise_append.mpr ⟨hturned, ?_, fun a ha b hb => ?_⟩, fun a ha => ?_⟩
  · exact Itinerary.apart_children_append hpending
  · rcases List.mem_append.mp hb with hb | hb
    · have hai : Apart (N := N) a i := hacross a ha i List.mem_cons_self
      exact (hai.symm.of_mem_ancestors (mem_ancestors_of_mem_children hb)).symm
    · exact hacross a ha b (List.mem_cons_of_mem _ hb)
  · have hi : P i := h.kind i (by simp)
    have hrest (ha : a ∈ turned ∨ a ∈ pending) : P a := h.kind a (by simp; tauto)
    simp only [List.mem_append] at ha
    rcases ha with ha | ha | ha
    · exact hrest (Or.inl ha)
    · exact hchildren i hi a ha
    · exact hrest (Or.inr ha)

-- What the visits keep of the nodes at which the walk has turned back so far holds in the end of
-- nodes on different branches. A visit may end in a fault before it turns back or after.
theorem Triple.walk_spread {ε σ : Type} {I : List (Fin n) → σ → Prop}
    {visit : Fin n → EStateM ε σ Bool} {post : σ → Prop}
    (hchildren : ∀ i, P i → ∀ c ∈ N.children i, P c)
    (hvisit : ∀ turned i, P i → Triple (I turned) (visit i)
      (fun goOn => I (if goOn then turned else turned ++ [i]))
      fun s => I turned s ∨ I (turned ++ [i]) s)
    (hpost : ∀ turned, Spread N P turned → ∀ s, I turned s → post s)
    (h : Spread N P (turned ++ pending)) :
    Triple (I turned) (N.walk visit pending) (fun _ => post) post := by
  induction pending using Nesting.walk.induct (N := N) generalizing turned with
  | case1 =>
      rw [Nesting.walk]
      exact .pure (hpost turned h.of_append)
  | case2 i pending ihChildren ihPending =>
      have hnext : Spread N P (turned ++ [i] ++ pending) := by simpa using h
      have hstop (s : σ) (hs : I turned s ∨ I (turned ++ [i]) s) : post s :=
        hs.elim (hpost turned h.of_append s) (hpost _ hnext.of_append s)
      have hfirst := hvisit turned i (h.kind i (by simp))
      rw [Nesting.walk]
      refine .bind (hfirst.mono (fun _ hs => hs) (fun _ _ hs => hs) hstop) fun goOn => ?_
      cases goOn with
      | true => exact ihChildren (h.children hchildren)
      | false => exact ihPending hnext

end Walks

namespace Function

variable {f : Function}

def BlocksWithin (f : Function) (r q : f.RegionIx) : Prop :=
  ∀ b ∈ f.regionBlocks r, b ∈ f.regionBlocks q

def BlocksDisjoint (f : Function) (r q : f.RegionIx) : Prop :=
  ∀ b ∈ f.regionBlocks r, b ∉ f.regionBlocks q

instance (f : Function) (r q : f.RegionIx) : Decidable (f.BlocksWithin r q) :=
  inferInstanceAs (Decidable (∀ b ∈ f.regionBlocks r, b ∈ f.regionBlocks q))

instance (f : Function) (r q : f.RegionIx) : Decidable (f.BlocksDisjoint r q) :=
  inferInstanceAs (Decidable (∀ b ∈ f.regionBlocks r, b ∉ f.regionBlocks q))

-- Attached regions lie within their parents, and different children share no block.
structure NestsRegions (f : Function) : Prop where
  within : ∀ r, f.isDetached r = false → ∀ c ∈ f.regions.nesting.children r, f.BlocksWithin c r
  disjoint : ∀ r, f.isDetached r = false → ∀ c ∈ f.regions.nesting.children r,
    ∀ d ∈ f.regions.nesting.children r, c ≠ d → f.BlocksDisjoint c d

theorem BlocksDisjoint.mono {r q r' q' : f.RegionIx} (h : f.BlocksDisjoint r q)
    (hr : f.BlocksWithin r' r) (hq : f.BlocksWithin q' q) : f.BlocksDisjoint r' q' :=
  fun b hb hb' => h b (hr b hb) (hq b hb')

theorem BlocksWithin.refl (r : f.RegionIx) : f.BlocksWithin r r := fun _ hb => hb

namespace NestsRegions

open Nesting

variable {r q : f.RegionIx}

theorem within_of_mem_ancestors (hnests : f.NestsRegions) (hr : f.isDetached r = false)
    (h : q ∈ f.regions.nesting.ancestors r) : f.BlocksWithin r q := by
  induction r using Nesting.ancestors.induct (N := f.regions.nesting) with
  | case1 r ih =>
      rcases mem_ancestors_iff.mp h with rfl | ⟨p, hp, hqp⟩
      · exact .refl _
      · have hattached : f.isDetached p = false := (f.regions.detached_parent hp).symm.trans hr
        have hwithin := hnests.within p hattached r (f.regions.nesting.mem_children.mpr hp)
        exact fun b hb => ih p hp hattached hqp b (hwithin b hb)

-- The climb from one of the regions ends at the lowest region around both.
theorem disjoint_of_apart (hnests : f.NestsRegions) (hr : f.isDetached r = false)
    (hq : f.isDetached q = false) (h : Apart (N := f.regions.nesting) r q) :
    f.BlocksDisjoint r q := by
  induction r using Nesting.ancestors.induct (N := f.regions.nesting) with
  | case1 r ih =>
      cases hp : f.regions.nesting.parent r with
      | none =>
          obtain rfl : r = f.regions.top := (f.regions.attached_root_iff r).mp ⟨hp, hr⟩
          exact absurd (f.regions.top_mem_ancestors hq) h.1
      | some p =>
          have hattached : f.isDetached p = false := (f.regions.detached_parent hp).symm.trans hr
          have hchild := f.regions.nesting.mem_children.mpr hp
          by_cases hpq : p ∈ f.regions.nesting.ancestors q
          · have hne : p ≠ q := by
              rintro rfl
              exact h.2 (mem_ancestors_of_parent hp)
            obtain ⟨d, hd, hdq⟩ := exists_child_of_mem_ancestors hpq hne
            have hrd : r ≠ d := by
              rintro rfl
              exact h.1 hdq
            have hsiblings := hnests.disjoint p hattached r hchild d hd hrd
            exact hsiblings.mono (.refl r) (hnests.within_of_mem_ancestors hq hdq)
          · have hqp : q ∉ f.regions.nesting.ancestors p := fun hqp =>
              h.2 (ancestors_trans (mem_ancestors_of_parent hp) hqp)
            have hparent := ih p hp hattached ⟨hpq, hqp⟩
            exact hparent.mono (hnests.within p hattached r hchild) (.refl q)

end NestsRegions

end Function

def requested (events : List Event) : List RegionId :=
  events.filterMap fun
    | .extracted (.region id _) _ _ => some id
    | _ => none

@[simp] theorem requested_append (before after : List Event) :
    requested (before ++ after) = requested before ++ requested after := List.filterMap_append

@[simp] theorem requested_extracted (id : RegionId) (lines : LineSpan) (request : ExtractRequest)
    (result : Option Extraction) :
    requested [.extracted (.region id lines) request result] = [id] := rfl

namespace FactTable

variable {settings : Settings} {p : Program} {f : Function} {t : FactTable}

-- A region is asked for in its own right or as a reduced form.
def StandsFor (t : FactTable) (x r : f.RegionIx) : Prop :=
  x = r ∨ t.reducedForm f (f.regionId r) = some (f.regionId x)

structure Asking (f : Function) (t : FactTable) (before : List RegionId)
    (turned : List f.RegionIx) (s : Progress FactTable) : Prop where
  facts : s.state.unmarked = t.unmarked
  asked : ∃ asked : List f.RegionIx,
    requested s.events.toList = before ++ asked.map f.regionId ∧
      List.Forall₂ t.StandsFor asked turned

section Walk

variable {before : List RegionId} {turned : List f.RegionIx} {r : f.RegionIx}

theorem Asking.silent {s : Progress FactTable} (h : Asking f t before turned s) {event : Event}
    (hevent : requested [event] = []) :
    Asking f t before turned { s with events := s.events.push event } := by
  obtain ⟨asked, hasked, hturned⟩ := h.asked
  exact ⟨h.facts, asked, by simp [hasked, hevent], hturned⟩

theorem Asking.noted {s : Progress FactTable} (h : Asking f t before turned s) (id : RegionId) :
    Asking f t before turned (noted f id s) :=
  have hasking : Asking f t before turned { s with events := s.events.push (.analyzed id) } :=
    h.silent rfl
  ⟨(unmarked_analyzeReduced s.state f id).trans h.facts, hasking.asked⟩

theorem ignoresWriting_asking : IgnoresWriting (Asking f t before turned) where
  counted _ _ _ _ h := h.silent rfl
  annotated _ _ h := ⟨h.facts, h.asked⟩
  registered _ _ h := ⟨h.facts, h.asked⟩
  named _ _ h := ⟨h.facts, h.asked⟩

def Visiting (t : FactTable) (before : List RegionId) (turned : List f.RegionIx) (r : f.RegionIx)
    (s : Progress FactTable) : Prop :=
  Asking f t before turned s ∨ Asking f t before (turned ++ [r]) s

theorem triple_asking_commitRegion {x : f.RegionIx} (hx : t.StandsFor x r) (lines : LineSpan) :
    Triple (Asking f t before turned) ((job settings p f).commitRegion (f.regionId x) lines)
      (fun _ => Asking f t before (turned ++ [r])) (Visiting t before turned r) := by
  have hcommit : Triple (Asking f t before turned)
      ((job settings p f).commitRegion (f.regionId x) lines)
      (fun _ => Asking f t before (turned ++ [r])) (Asking f t before (turned ++ [r])) := by
    apply ignoresWriting_asking.commitRegion_of_triple
    intro s hs
    obtain ⟨asked, hasked, hturned⟩ := hs.asked
    refine .ok ⟨hs.facts, asked ++ [x], ?_, ?_⟩
    · simp [hasked]
    · exact List.rel_append hturned (.cons hx .nil)
  exact hcommit.mono (fun _ hs => hs) (fun _ _ hs => hs) fun _ => Or.inr

theorem triple_asking_commitReduced (r : f.RegionIx) :
    Triple (Asking f t before turned) ((job settings p f).commitReduced (f.regionId r))
      (fun tried => Asking f t before (if tried then turned ++ [r] else turned))
      (Visiting t before turned r) := by
  intro s hs
  have hnoted := hs.noted (f.regionId r)
  rw [commitReduced_eq hs.facts]
  cases hform : t.reducedForm f (f.regionId r) with
  | none => exact .ok hnoted
  | some x =>
      dsimp only
      cases t.turnsDown f x with
      | true => exact .ok hnoted
      | false =>
          cases hregion : f.region x with
          | error e => exact .error (Or.inl hnoted)
          | ok i =>
              obtain rfl := Function.region_eq_ok_iff.mp hregion
              simp only [Bool.false_eq_true, if_false]
              cases t.linesOf f i with
              | none => exact .ok hnoted
              | some lines =>
                  refine Triple.bind (triple_asking_commitRegion (Or.inr hform) lines)
                    (fun _ => ?_) _ hnoted
                  exact .pure fun _ hs => hs

variable (settings p) in
theorem triple_asking_visitRegion (turned : List f.RegionIx) (hr : f.isDetached r = false) :
    Triple (Asking f t before turned) ((job settings p f).visitRegion r)
      (fun goOn => Asking f t before (if goOn then turned else turned ++ [r]))
      (Visiting t before turned r) := by
  intro s hs
  rw [visitRegion_eq hs.facts hr]
  split
  · cases t.linesOf f r with
    | none => exact .ok hs
    | some lines =>
        dsimp only
        split
        · refine Triple.bind (triple_asking_commitRegion (Or.inl rfl) lines) (fun _ => ?_) s hs
          exact .pure fun _ hs => hs
        · refine Triple.bind (triple_asking_commitReduced r) (fun tried => ?_) s hs
          cases tried <;> exact .pure fun _ hs => hs
  · exact .ok hs

end Walk

-- What stands for regions that have no block in common has none in common either, as long as
-- reduced forms only leave blocks out.
theorem pairwise_disjoint_of_standsFor {asked turned : List f.RegionIx}
    (hforms : ∀ r x, t.reducedForm f (f.regionId r) = some (f.regionId x) → f.BlocksWithin x r)
    (h : List.Forall₂ t.StandsFor asked turned) (hturned : turned.Pairwise f.BlocksDisjoint) :
    asked.Pairwise f.BlocksDisjoint := by
  have hwithin {x r : f.RegionIx} (hx : t.StandsFor x r) : f.BlocksWithin x r := by
    rcases hx with rfl | hform
    · exact .refl x
    · exact hforms r x hform
  have hlength := h.length_eq
  rw [List.pairwise_iff_getElem] at hturned ⊢
  intro i k hi hk hik
  have hdisjoint := hturned i k (by omega) (by omega) hik
  exact hdisjoint.mono (hwithin (h.get hi (by omega))) (hwithin (h.get hk (by omega)))

-- Whatever a run over regions asks for, with success or not and to its end or up to a fault: no two
-- of the requests have a block in common.
theorem offloadRegions_requests_disjoint (settings : Settings) (p : Program) (f : Function)
    (shared : Shared FactTable) (hnests : f.NestsRegions)
    (hforms : ∀ r x : f.RegionIx,
      shared.state.reducedForm f (f.regionId r) = some (f.regionId x) → f.BlocksWithin x r) :
    let after := ((job settings p f).offloadRegions f.regions.top).after { toShared := shared }
    ∃ asked : List f.RegionIx,
      requested after.events.toList = requested shared.events.toList ++ asked.map f.regionId ∧
        asked.Pairwise f.BlocksDisjoint := by
  intro after
  have hstart : Asking f shared.state (requested shared.events.toList) []
      ({ toShared := shared } : Progress FactTable) :=
    ⟨rfl, [], by simp, .nil⟩
  have htop : Spread f.regions.nesting (fun r => f.isDetached r = false)
      ([] ++ [f.regions.top]) := by
    refine ⟨List.pairwise_singleton _ _, fun r hr => ?_⟩
    rw [List.mem_singleton.mp hr]
    exact f.regions.attached_top
  have hpost (turned : List f.RegionIx)
      (hspread : Spread f.regions.nesting (fun r => f.isDetached r = false) turned)
      (s : Progress FactTable)
      (hs : Asking f shared.state (requested shared.events.toList) turned s) :
      ∃ asked : List f.RegionIx,
        requested s.events.toList = requested shared.events.toList ++ asked.map f.regionId ∧
          asked.Pairwise f.BlocksDisjoint := by
    obtain ⟨asked, hasked, hstands⟩ := hs.asked
    refine ⟨asked, hasked, pairwise_disjoint_of_standsFor hforms hstands ?_⟩
    refine hspread.apart.imp_of_mem fun hr hq hapart => ?_
    exact hnests.disjoint_of_apart (hspread.kind _ hr) (hspread.kind _ hq) hapart
  have hwalk := Triple.walk_spread (N := f.regions.nesting)
    (fun r hr c hc => Function.attached_of_mem_children hr hc)
    (fun turned _ hr => triple_asking_visitRegion settings p turned hr) hpost htop
  exact after_of_triple hwalk hstart

-- Two loops in regions of their own, and a detached region that is the first of them without its
-- last block.
def twoLoopsDraft : FunctionDraft where
  name := "f"
  blocks := [{ id := ⟨0⟩, lines := [4] }, { id := ⟨1⟩, lines := [5] }, { id := ⟨2⟩, lines := [6] },
    { id := ⟨3⟩, lines := [7] }, { id := ⟨4⟩, lines := [8] }]
  loops := [{ id := ⟨0⟩, header := ⟨1⟩, latch := some ⟨1⟩, blocks := [⟨1⟩], startLine := some 5 },
    { id := ⟨1⟩, header := ⟨3⟩, latch := some ⟨4⟩, blocks := [⟨3⟩, ⟨4⟩], startLine := some 7 }]
  regions := [{ id := ⟨0⟩, blocks := [⟨0⟩, ⟨1⟩, ⟨2⟩, ⟨3⟩, ⟨4⟩] },
    { id := ⟨1⟩, parent := some ⟨0⟩, entering := some ⟨0⟩, blocks := [⟨1⟩, ⟨2⟩] },
    { id := ⟨2⟩, parent := some ⟨0⟩, entering := some ⟨2⟩, blocks := [⟨3⟩, ⟨4⟩] },
    { id := ⟨3⟩, entering := some ⟨0⟩, blocks := [⟨1⟩], detached := true }]

def twoLoops : Function := (Function.ofDraft twoLoopsDraft).toOption.get (by decide +kernel)

-- The top is left out, and the first loop could not be bounded as it is.
def twoLoopsFacts : FactTable := edit {} "f" fun facts =>
  { facts with
    incomplete := {⟨1⟩}
    reduced := {(⟨1⟩, ⟨3⟩)}
    unsafeScopes := {⟨0⟩}
    regionExtractions := facts.regionExtractions.insert ⟨2⟩ {} }

-- The detached region is asked for in vain, and then the region of the second loop.
theorem twoLoops_requests :
    let run := ((job { coalesce := true } ⟨[twoLoops], by decide⟩ twoLoops).offloadRegions
      twoLoops.regions.top).after { state := twoLoopsFacts }
    requested run.events.toList = [⟨3⟩, ⟨2⟩] ∧ committed run.events.toList = [⟨2⟩] ∧
      twoLoops.NestsRegions ∧
      (∀ r x : twoLoops.RegionIx, twoLoopsFacts.reducedForm twoLoops (twoLoops.regionId r) =
        some (twoLoops.regionId x) → twoLoops.BlocksWithin x r) ∧
      ∃ asked : List twoLoops.RegionIx, requested run.events.toList =
        asked.map twoLoops.regionId ∧ asked.Pairwise twoLoops.BlocksDisjoint := by
  have hnests : twoLoops.NestsRegions := ⟨by decide +kernel, by decide +kernel⟩
  have hforms : ∀ r x : twoLoops.RegionIx, twoLoopsFacts.reducedForm twoLoops
      (twoLoops.regionId r) = some (twoLoops.regionId x) → twoLoops.BlocksWithin x r := by
    decide +kernel
  refine ⟨by decide +kernel, by decide +kernel, hnests, hforms, ?_⟩
  exact offloadRegions_requests_disjoint { coalesce := true } ⟨[twoLoops], by decide⟩ twoLoops
    { state := twoLoopsFacts } hnests hforms

end FactTable

end LoopPragma
