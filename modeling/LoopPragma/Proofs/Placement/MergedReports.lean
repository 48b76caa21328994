import LoopPragma.Proofs.Annotations.Distinct
import LoopPragma.Proofs.Placement.Independence
import LoopPragma.Proofs.Placement.Replay

namespace LoopPragma

open Annotations

theorem Annotations.HasTexts.addAll {a : Annotations} (h : a.HasTexts)
    (marks : List (UInt32 × String)) : (a.addAll marks).HasTexts :=
  List.foldlRecOn (motive := HasTexts) _ _ h fun _ h mark _ => h.add mark.1 mark.2

namespace Job

variable {σ : Type} {j : Job σ}

theorem hasTexts_written {a : Annotations} (h : a.HasTexts) (event : Event) :
    (j.written a event).HasTexts := by
  cases event with
  | counted => exact h
  | analyzed => exact h
  | extracted target request result =>
      cases result with
      | none => cases target <;> exact h
      | some extraction =>
          cases target with
          | loop id startLine =>
              rw [written]
              cases j.function.loop id with
              | error e => exact h
              | ok lp => exact (h.merge extraction.comments).addAll _
          | region id lines =>
              rw [written]
              cases j.function.region id with
              | error e => exact h
              | ok r => exact ((h.merge extraction.comments).addAll _).add lines.stop closingBrace

-- The text of a function is told from its events, so it grows by such steps alone.
theorem triple_annotate_hasTexts (j : Job σ) :
    Triple (fun _ => True) j.annotate (fun a _ => True ∧ a.HasTexts) fun _ => True := by
  intro shared _
  rw [annotate]
  by_cases hdecl : j.function.isDeclaration
  · rw [if_pos hdecl]
    exact .ok ⟨trivial, .empty⟩
  · rw [if_neg hdecl]
    have hend := j.maintains_replays_annotateBody { toShared := shared } (Replays.refl _)
    generalize j.annotateBody _ = u at hend ⊢
    cases hend with
    | error h => exact .error trivial
    | ok h =>
        obtain ⟨run, -, hannotations, -⟩ := h
        refine .ok ⟨trivial, ?_⟩
        rw [hannotations]
        exact List.foldlRecOn (motive := HasTexts) _ _ .empty fun _ h event _ =>
          hasTexts_written h event

end Job

namespace Report

structure MergesLines (r : Report) : Prop where
  lineNumbers : ∀ n, n ∈ r.merged.lineNumbers ↔
    n ∈ r.external.lineNumbers ∨ ∃ entry ∈ r.functions, n ∈ entry.2.lineNumbers
  texts : ∀ n text, r.merged.get? n = some text → text ≠ "" ∧ endsLine text.toList
  distinct : ∀ n text, r.merged.get? n = some text → (Text.pieces text.toList).Nodup

theorem mergesLines {r : Report} (hexternal : r.external.HasTexts)
    (hdistinct : r.external.HasDistinctLines)
    (hfunctions : ∀ entry ∈ r.functions, entry.2.HasTexts) : r.MergesLines := by
  have hmerged : r.merged = (r.functions.map Prod.snd).foldl Annotations.merge r.external := by
    rw [merged, List.foldl_map]
  have hmaps : ∀ b ∈ r.functions.map Prod.snd, b.HasTexts := by
    intro b hb
    obtain ⟨entry, hentry, rfl⟩ := List.mem_map.mp hb
    exact hfunctions entry hentry
  obtain ⟨htexts, hlines, hkeep⟩ := foldl_merge hexternal hmaps
  rw [← hmerged] at htexts hlines hkeep
  refine ⟨fun n => ?_, fun n text hget => ?_, fun n text hget => ?_⟩
  · simpa only [List.mem_map, exists_exists_and_eq_and] using hlines n
  · exact ⟨ne_empty_of_endsLine (htexts n text hget), htexts n text hget⟩
  · have hnodup := hkeep hdistinct n
    rwa [linesAt, textAt, hget, Option.getD_some] at hnodup

end Report

theorem Program.report_hasTexts {σ : Type} {p : Program} {A : Analyses σ} {settings : Settings}
    {state : σ} {r : Report} {after : σ} (h : p.report A settings state = .ok (r, after)) :
    r.external = ∅ ∧ ∀ entry ∈ r.functions, entry.2.HasTexts := by
  have hmaps : Triple (fun _ => True) (p.functions.mapM fun f => Job.annotate ⟨A, settings, p, f⟩)
      (fun maps _ => True ∧ ∀ a ∈ maps, a.HasTexts) fun _ => True :=
    Triple.mapM fun f _ => Job.triple_annotate_hasTexts _
  have hend := hmaps { state } trivial
  rw [report_eq] at h
  generalize (p.functions.mapM fun f => Job.annotate ⟨A, settings, p, f⟩) { state } = u at h hend
  cases hend with
  | error _ => cases h
  | ok hend =>
      cases h
      refine ⟨rfl, fun entry hentry => ?_⟩
      exact hend.2 entry.2 (List.of_mem_zip (List.mem_filter.mp hentry).1).2

-- The merged annotations of a report, be it on a line list or on a program, with any analyses that
-- may answer as they like. They have a text exactly at the source lines of the external annotations
-- and of those of the functions, each ends with a newline, and no line of one is there twice.
theorem Report.merged_lines_distinct :
    (∀ text family, (Report.ofLineList text family).MergesLines) ∧
    ∀ {σ : Type} (p : Program) (A : Analyses σ) (settings : Settings) (state : σ) (r : Report)
      (after : σ), p.report A settings state = .ok (r, after) → r.MergesLines := by
  refine ⟨fun text family => ?_, fun p A settings state r after h => ?_⟩
  · obtain ⟨htexts, hdistinct⟩ := LineList.annotations_lines text family
    exact mergesLines htexts hdistinct nofun
  · obtain ⟨hexternal, hfunctions⟩ := Program.report_hasTexts h
    refine mergesLines ?_ ?_ hfunctions
    · rw [hexternal]
      exact .empty
    · rw [hexternal]
      exact .empty

-- Two functions with a loop at the same source line.
def sharedLineDraft : ProgramDraft where
  functions := ["f", "g"].map fun name =>
    { name
      blocks := [{ id := ⟨0⟩ }, { id := ⟨1⟩, tags := { parallel := true } }]
      loops := [{ id := ⟨0⟩, header := ⟨1⟩, latch := some ⟨1⟩, blocks := [⟨1⟩],
                  startLine := some 5 }]
      regions := [{ id := ⟨0⟩, blocks := [⟨0⟩, ⟨1⟩] },
        { id := ⟨1⟩, parent := some ⟨0⟩, entering := some ⟨0⟩, blocks := [⟨1⟩] }] }

def sharedLine : Program := (Program.ofDraft sharedLineDraft).toOption.get (by decide +kernel)

-- The guard of the one loop repeats a line that the comments of the other have too.
def sharedLineFacts : FactTable where
  functions := {
    ("f", { loopExtractions := {(⟨0⟩, { guard := "if(n > 9)\nlong i;\nlong i;" })} }),
    ("g", { loopExtractions := {(⟨0⟩, { comments := {(5, "long i;")} })} })}

theorem sharedLine_merged : ∃ r after,
    sharedLine.report FactTable.analyses { emitParallel := true } sharedLineFacts =
      .ok (r, after) ∧
    r.MergesLines ∧ (∃ entry ∈ r.functions, ¬(entry.2.linesAt 5).Nodup) ∧
    r.merged.get? 5 =
      some "#pragma acc loop independent if(n > 9)\nlong i;\n#pragma acc loop independent\n" := by
  have hvalue : (match sharedLine.report FactTable.analyses { emitParallel := true }
        sharedLineFacts with
    | .ok (r, _) => decide ((∃ entry ∈ r.functions, ¬(entry.2.linesAt 5).Nodup) ∧
        r.merged.get? 5 =
          some "#pragma acc loop independent if(n > 9)\nlong i;\n#pragma acc loop independent\n")
    | .error _ => false) = true := by decide +kernel
  cases hrun : sharedLine.report FactTable.analyses { emitParallel := true } sharedLineFacts with
  | error e =>
      rw [hrun] at hvalue
      cases hvalue
  | ok answer =>
      rw [hrun] at hvalue
      obtain ⟨r, after⟩ := answer
      have hmerges := Report.merged_lines_distinct.2 _ _ _ _ r after hrun
      exact ⟨r, after, rfl, hmerges, of_decide_eq_true hvalue⟩

end LoopPragma
