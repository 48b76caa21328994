import LoopPragma.Proofs.Nesting.Preorder
import LoopPragma.Proofs.Placement.Credit
import LoopPragma.Proofs.Placement.Provenance
import LoopPragma.Proofs.Placement.Replay

namespace LoopPragma

theorem map_filterMap_of_isSome {α β : Type} {g : α → Option β} {xs : List α}
    (h : ∀ a ∈ xs, (g a).isSome) :
    (xs.filterMap fun a => (g a).map (a, ·)).map (fun entry => (entry.1, some entry.2)) =
      xs.map fun a => (a, g a) := by
  induction xs with
  | nil => rfl
  | cons a xs ih =>
      obtain ⟨b, hb⟩ := Option.isSome_iff_exists.mp (h a List.mem_cons_self)
      rw [List.filterMap_cons, hb, Option.map_some, List.map_cons, List.map_cons, hb,
        ih fun a ha => h a (List.mem_cons_of_mem _ ha)]

namespace Job

open Counts

variable {σ : Type} (j : Job σ)

def stampedLoops (lp : j.function.LoopIx) : List j.function.LoopIx :=
  (j.function.loops.nesting.preorder lp).filter fun inner =>
    (j.function.loops.nesting.path lp inner).all fun a =>
      j.function.isParallel j.settings a && (j.function.startLine a).isSome

variable {j} {lp inner : j.function.LoopIx}

theorem mem_stampedLoops_iff :
    inner ∈ j.stampedLoops lp ↔ inner ∈ j.function.nest lp ∧
      ∀ a ∈ j.function.loops.nesting.ancestors inner, lp ∈ j.function.loops.nesting.ancestors a →
        j.function.isParallel j.settings a ∧ (j.function.startLine a).isSome := by
  rw [stampedLoops, List.mem_filter, Nesting.mem_preorder_iff, Function.nest, Nesting.mem_nest_iff]
  simp only [List.all_eq_true, Nesting.mem_path_iff, Bool.and_eq_true_iff, and_imp]

theorem nodup_stampedLoops (lp : j.function.LoopIx) : (j.stampedLoops lp).Nodup :=
  (Nesting.nodup_preorder lp).filter _

theorem map_parallelNest (lp : j.function.LoopIx) :
    (j.parallelNest lp).map (fun entry => (entry.1, some entry.2)) =
      (j.stampedLoops lp).map fun inner => (inner, j.function.startLine inner) := by
  rw [stampedLoops, ← Nesting.prune_eq_filter_preorder]
  refine map_filterMap_of_isSome fun inner hinner => ?_
  exact (Bool.and_eq_true_iff.mp (Nesting.mem_prune_iff.mp hinner).1).2

theorem mem_parallelNest_iff {line : UInt32} :
    (inner, line) ∈ j.parallelNest lp ↔
      inner ∈ j.stampedLoops lp ∧ j.function.startLine inner = some line := by
  rw [stampedLoops, ← Nesting.prune_eq_filter_preorder, parallelNest, List.mem_filterMap]
  constructor
  · rintro ⟨a, ha, hentry⟩
    obtain ⟨b, hline, heq⟩ := Option.map_eq_some_iff.mp hentry
    obtain ⟨rfl, rfl⟩ := Prod.mk.inj heq
    exact ⟨ha, hline⟩
  · rintro ⟨hinner, hline⟩
    exact ⟨inner, hinner, by rw [hline]; rfl⟩

theorem length_stampedLoops (lp : j.function.LoopIx) :
    (j.stampedLoops lp).length = (j.parallelNest lp).length := by
  simpa using (congrArg List.length (map_parallelNest lp)).symm

theorem map_startLine_stampedLoops (lp : j.function.LoopIx) :
    (j.stampedLoops lp).map j.function.startLine = ((j.parallelNest lp).map Prod.snd).map some := by
  simpa [Function.comp_def] using (congrArg (List.map Prod.snd) (map_parallelNest lp)).symm

theorem stampCounts_eq (lp : j.function.LoopIx) :
    j.stampCounts lp = List.replicate (j.stampedLoops lp).length (.counted .annotatedLoops 1) := by
  rw [stampCounts, List.map_const', length_stampedLoops]

theorem total_stampCounts (lp : j.function.LoopIx) :
    total .annotatedLoops (j.stampCounts lp) = (j.stampedLoops lp).length := by
  rw [stampCounts, total_map, length_stampedLoops]
  simp [Event.amount]

theorem holds_addAll_nestMarks (lp : j.function.LoopIx) (guard : String) (a : Annotations)
    {line : UInt32} (hinner : inner ∈ j.stampedLoops lp)
    (hline : j.function.startLine inner = some line) :
    (a.addAll (j.nestMarks lp guard)).Holds line (j.settings.family.loopDirective guard) := by
  refine Annotations.holds_addAll a ?_ (endsLine_loopDirective _ _)
  exact List.mem_map.mpr ⟨(inner, line), mem_parallelNest_iff.mpr ⟨hinner, hline⟩, rfl⟩

-- Stamping never fails. It takes the stamped loops in pre-order, each once, and adds the same
-- directive at the line of each, where it stands afterwards. It counts as many annotated loops as
-- it stamps, answers with their number and leaves everything else as it is.
theorem stampNest_preorder (j : Job σ) (lp : j.function.LoopIx) (guard : String)
    (s : Progress σ) :
    let f := j.function
    let stamped := j.stampedLoops lp
    stamped.Nodup ∧ stamped.Sublist (f.loops.nesting.preorder lp) ∧
    (∀ inner, inner ∈ stamped ↔ inner ∈ f.nest lp ∧
      ∀ a ∈ f.loops.nesting.ancestors inner, lp ∈ f.loops.nesting.ancestors a →
        f.isParallel j.settings a ∧ (f.startLine a).isSome) ∧
    ∃ (lines : List UInt32) (u : Progress σ), stamped.map f.startLine = lines.map some ∧
      j.stampNest lp guard s = .ok stamped.length u ∧
      u = { s with
        annotations := lines.foldl
          (fun a line => a.add line (j.settings.family.loopDirective guard)) s.annotations
        events := s.events ++ List.replicate stamped.length (Event.counted .annotatedLoops 1) } ∧
      (∀ inner ∈ stamped, ∀ line, f.startLine inner = some line →
        u.annotations.Holds line (j.settings.family.loopDirective guard)) ∧
      total .annotatedLoops u.events.toList =
        total .annotatedLoops s.events.toList + stamped.length ∧
      (ofEvents u.events.toList).annotatedLoops =
        saturatingAdd (ofEvents s.events.toList).annotatedLoops (.ofNat stamped.length) := by
  intro f stamped
  have hannotations : s.annotations.addAll (j.nestMarks lp guard) =
      ((j.parallelNest lp).map Prod.snd).foldl
        (fun a line => a.add line (j.settings.family.loopDirective guard)) s.annotations := by
    rw [nestMarks, Annotations.addAll, List.foldl_map, List.foldl_map]
  have htotal : total .annotatedLoops (s.events ++ j.stampCounts lp).toList =
      total .annotatedLoops s.events.toList + stamped.length := by
    rw [Array.toList_appendList, total_append, total_stampCounts]
  have hfits : stamped.length < UInt64.size := by
    have hlength : stamped.length = (j.parallelNest lp).length := length_stampedLoops lp
    have := length_parallelNest_le (j := j) lp
    have := length_nest_lt (j := j) lp
    omega
  refine ⟨nodup_stampedLoops lp, List.filter_sublist, fun _ => mem_stampedLoops_iff,
    (j.parallelNest lp).map Prod.snd, s.put (j.stampCounts lp) (j.nestMarks lp guard),
    map_startLine_stampedLoops lp, ?_, ?_, ?_, htotal, get_ofEvents_of_total htotal hfits⟩
  · rw [length_stampedLoops]
    exact stampNest_eq lp guard s
  · rw [Progress.put, stampCounts_eq, hannotations]
  · exact fun inner hinner line hline => holds_addAll_nestMarks lp guard s.annotations hinner hline

end Job

end LoopPragma
