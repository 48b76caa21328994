import LoopPragma.Proofs.Annotations.Grouping
import LoopPragma.Proofs.Annotations.Growth

namespace LoopPragma.Annotations

variable {a b : Annotations} {line : UInt32} {directive : String}

theorem add_eq_self_iff : a.add line directive = a ↔ a.IsIdle line directive := by
  constructor
  · intro hsame
    cases hadd : a.add? line directive with
    | none => exact add?_eq_none_iff.mp hadd
    | some b =>
        obtain ⟨text, hextend, -⟩ := Option.map_eq_some_iff.mp hadd
        have htext := textAt_add_self a line directive
        rw [hsame, hextend, Option.getD_some, eq_append_of_extend? hextend,
          List.self_eq_append_right] at htext
        exact absurd htext (terminated_ne_nil _)
  · intro hidle
    rw [add, add?_eq_none_iff.mpr hidle, Option.getD_none]

theorem isSome_add?_iff : (a.add? line directive).isSome ↔ a.add line directive ≠ a := by
  rw [ne_eq, add_eq_self_iff, ← add?_eq_none_iff, ← Option.not_isSome_iff_eq_none, not_not]

theorem addAll_eq_self {marks : List (UInt32 × String)}
    (h : ∀ mark ∈ marks, a.IsIdle mark.1 mark.2) : a.addAll marks = a := by
  induction marks with
  | nil => rfl
  | cons mark marks ih =>
      have hfirst : a.add mark.1 mark.2 = a := add_eq_self_iff.mpr (h mark List.mem_cons_self)
      rw [addAll, List.foldl_cons, hfirst]
      exact ih fun m hm => h m (List.mem_cons_of_mem _ hm)

theorem AddsTexts.addAll (a : Annotations) (marks : List (UInt32 × String)) :
    a.AddsTexts (a.addAll marks) :=
  List.foldlRecOn (motive := a.AddsTexts) _ _ (.refl a) fun _ h mark _ =>
    h.trans (.add _ mark.1 mark.2)

theorem get?_addAll {text : String} (h : a.get? line = some text)
    (marks : List (UInt32 × String)) :
    ∃ more, (a.addAll marks).get? line = some (text ++ more) := by
  have htext : a.textAt line = text := by rw [textAt, h, Option.getD_some]
  rcases AddsTexts.addAll a marks line with hsame | hfilled
  · exact ⟨"", by rw [hsame, h, String.append_empty]⟩
  · obtain ⟨more, hmore⟩ := within_addAll a marks line
    refine ⟨String.ofList more, ?_⟩
    rw [AddsTexts.get?_eq hfilled, Option.some_inj, ← String.toList_inj, String.toList_append,
      String.toList_ofList, ← hmore, htext]

-- What a merge puts: the lines of every text, in the order of the source lines.
def mergeMarks (b : Annotations) : List (UInt32 × String) :=
  b.toList.flatMap fun entry => (directives entry.2).map (entry.1, ·)

theorem merge_eq_addAll (a b : Annotations) : a.merge b = a.addAll b.mergeMarks := by
  rw [addAll, mergeMarks, List.foldl_flatMap]
  simp only [List.foldl_map]
  rfl

inductive Edit where
  | add (line : UInt32) (directive : String)
  | merge (other : Annotations)

def Edit.apply (a : Annotations) : Edit → Annotations
  | .add line directive => a.add line directive
  | .merge other => a.merge other

def Edit.marks : Edit → List (UInt32 × String)
  | .add line directive => [(line, directive)]
  | .merge other => other.mergeMarks

def applyAll (a : Annotations) (edits : List Edit) : Annotations := edits.foldl Edit.apply a

theorem apply_eq_addAll (a : Annotations) (edit : Edit) : edit.apply a = a.addAll edit.marks := by
  cases edit with
  | add line directive => rfl
  | merge other => exact merge_eq_addAll a other

theorem applyAll_eq_addAll (a : Annotations) (edits : List Edit) :
    a.applyAll edits = a.addAll (edits.flatMap Edit.marks) := by
  rw [addAll, List.foldl_flatMap, applyAll]
  exact congrArg (fun step => edits.foldl step a) (funext₂ apply_eq_addAll)

-- What a run of operations leaves: every text of before with more behind it, and nothing for the
-- same operations to do again. One addition more tells whether it changed anything.
theorem applyAll_settles (a : Annotations) (edits : List Edit) :
    (∀ line text, a.get? line = some text →
      ∃ more, (a.applyAll edits).get? line = some (text ++ more)) ∧
    (∀ again : List Edit, (∀ edit ∈ again, edit ∈ edits) →
      (a.applyAll edits).applyAll again = a.applyAll edits) ∧
    ∀ line directive, ((a.applyAll edits).add? line directive).isSome ↔
      (a.applyAll edits).add line directive ≠ a.applyAll edits := by
  refine ⟨fun line text h => ?_, fun again hagain => ?_, fun line directive => isSome_add?_iff⟩
  · rw [applyAll_eq_addAll]
    exact get?_addAll h _
  · rw [applyAll_eq_addAll _ again, applyAll_eq_addAll a]
    refine addAll_eq_self fun mark hmark => isIdle_addAll a ?_
    obtain ⟨edit, hedit, hmem⟩ := List.mem_flatMap.mp hmark
    exact List.mem_flatMap.mpr ⟨edit, hagain edit hedit, hmem⟩

-- A text without its newline and one that is empty, a directive of several lines that is there in
-- part, and none at all.
theorem applyAll_settles_looseEnds :
    let a : Annotations := .ofList [(7, "x;\nint"), (9, "")]
    let edits : List Edit := [.add 7 " i;\nn;", .merge looseEnds, .add 7 "n;", .add 9 ""]
    let again : List Edit := [.add 9 "", .merge looseEnds, .add 7 " i;\nn;", .merge looseEnds]
    (∃ more, (a.applyAll edits).get? 7 = some ("x;\nint" ++ more)) ∧
      (∃ more, (a.applyAll edits).get? 9 = some ("" ++ more)) ∧
      (a.applyAll edits).get? 7 = some "x;\nint i;\nn;\n\x7d\n" ∧
      (a.applyAll edits).applyAll again = a.applyAll edits ∧
      (a.applyAll edits).add 8 "" = a.applyAll edits := by
  intro a edits again
  obtain ⟨hgrown, hagain, hchanged⟩ := applyAll_settles a edits
  refine ⟨hgrown 7 _ (by decide +kernel), hgrown 9 _ (by decide +kernel), by decide +kernel,
    hagain again ?_, by_contra fun hne => ?_⟩
  · simp [again, edits]
  · exact absurd ((hchanged 8 "").mpr hne) (by decide +kernel)

end LoopPragma.Annotations
