import LoopPragma.Proofs.Annotations.Distinct

namespace LoopPragma

open Text

instance (cs : List Char) : Decidable (IsWhole cs) :=
  inferInstanceAs (Decidable (cs = [] ∨ cs.getLast? = some '\n'))

namespace Annotations

theorem hasWholeTexts_iff {a : Annotations} :
    a.HasWholeTexts ↔ ∀ entry ∈ a.toList, IsWhole entry.2.toList := by
  constructor
  · intro h entry hentry
    rw [← textAt_of_mem_toList hentry]
    exact h entry.1
  · intro h n
    rw [textAt]
    cases hget : a.get? n with
    | none => exact isWhole_nil
    | some text => exact h (n, text) (Std.ExtTreeMap.mem_toList_iff_getElem?_eq_some.mpr hget)

instance (a : Annotations) : Decidable a.HasWholeTexts := decidable_of_iff _ hasWholeTexts_iff.symm

-- What the second lines leave out ends one of them, which in turn ends a merged one.
theorem foldl_addLine_addLine (lines more : List (List Char)) (line : List Char) :
    (addLine more line).foldl addLine lines = addLine (more.foldl addLine lines) line := by
  by_cases h : ∃ k ∈ more, line <:+ k
  · obtain ⟨k, hk, hsuffix⟩ := h
    have hmerged : ∃ k' ∈ more.foldl addLine lines, k <:+ k' :=
      exists_suffix_foldl_addLine (Or.inr hk)
    obtain ⟨k', hk', hlonger⟩ := hmerged
    rw [addLine_of_suffix ⟨k, hk, hsuffix⟩, addLine_of_suffix ⟨k', hk', hsuffix.trans hlonger⟩]
  · rw [addLine_of_not_suffix h, List.foldl_append]
    rfl

theorem foldl_addLine_assoc (lines more rest : List (List Char)) :
    (rest.foldl addLine more).foldl addLine lines =
      rest.foldl addLine (more.foldl addLine lines) := by
  induction rest generalizing more with
  | nil => rfl
  | cons line rest ih => rw [List.foldl_cons, ih, foldl_addLine_addLine, List.foldl_cons]

def AddsTexts (a b : Annotations) : Prop := ∀ n, b.get? n = a.get? n ∨ b.textAt n ≠ ""

namespace AddsTexts

variable {a b c : Annotations}

theorem refl (a : Annotations) : a.AddsTexts a := fun _ => Or.inl rfl

theorem trans (hab : a.AddsTexts b) (hbc : b.AddsTexts c) : a.AddsTexts c := by
  intro n
  rcases hbc n with hsame | hc
  · rw [textAt, hsame]
    exact hab n
  · exact Or.inr hc

theorem add (a : Annotations) (line : UInt32) (directive : String) :
    a.AddsTexts (a.add line directive) := by
  intro n
  rcases get?_add a line directive n with hsame | ⟨text, hget, htext⟩
  · exact Or.inl hsame
  · right
    rw [textAt, hget, Option.getD_some]
    apply ne_empty_of_endsLine
    rw [htext]
    exact endsLine_append (endsLine_terminated _)

theorem merge (a b : Annotations) : a.AddsTexts (a.merge b) :=
  List.foldlRecOn (motive := a.AddsTexts) _ _ (.refl a) fun _ h entry _ =>
    List.foldlRecOn (motive := a.AddsTexts) _ _ h fun _ h directive _ =>
      h.trans (.add _ entry.1 directive)

theorem get?_eq {n : UInt32} (h : b.textAt n ≠ "") : b.get? n = some (b.textAt n) := by
  cases hget : b.get? n with
  | none => simp [textAt, hget] at h
  | some text => simp [textAt, hget]

-- What grew out of the same annotations is told apart by its texts.
theorem ext (hb : a.AddsTexts b) (hc : a.AddsTexts c) (h : ∀ n, b.textAt n = c.textAt n) :
    b = c := by
  apply Annotations.ext
  intro n
  by_cases hempty : b.textAt n = ""
  · rw [(hb n).resolve_right (not_not.mpr hempty),
      (hc n).resolve_right (not_not.mpr (h n ▸ hempty))]
  · rw [get?_eq hempty, get?_eq (h n ▸ hempty), h n]

end AddsTexts

theorem textAt_eq_of_linesAt_eq {a b : Annotations} {n : UInt32} (h : a.linesAt n = b.linesAt n) :
    a.textAt n = b.textAt n := by
  have hflat := congrArg List.flatten h
  rw [linesAt, linesAt, flatten_pieces, flatten_pieces] at hflat
  exact String.toList_inj.mp hflat

theorem linesAt_merge_merge {a b c : Annotations} (ha : a.HasWholeTexts) (hb : b.HasWholeTexts)
    (hc : c.HasWholeTexts) (n : UInt32) :
    ((a.merge b).merge c).linesAt n = (a.merge (b.merge c)).linesAt n := by
  rw [linesAt_merge (ha.merge b n) (hc n), linesAt_merge (ha n) (hb n),
    linesAt_merge (ha n) (hb.merge c n), linesAt_merge (hb n) (hc n), foldl_addLine_assoc]

-- What is built by adding and merging has whole texts, and they stay whole. For such annotations it
-- makes no difference which two of three are merged first.
theorem merge_assoc_of_whole :
    (∀ a : Annotations, a.IsBuilt → a.HasWholeTexts) ∧
    (∀ (a : Annotations) (line : UInt32) (directive : String),
      a.HasWholeTexts → (a.add line directive).HasWholeTexts) ∧
    (∀ a b : Annotations, a.HasWholeTexts → b.HasWholeTexts → (a.merge b).HasWholeTexts) ∧
    ∀ a b c : Annotations, a.HasWholeTexts → b.HasWholeTexts → c.HasWholeTexts →
      (a.merge b).merge c = a.merge (b.merge c) := by
  refine ⟨fun a => IsBuilt.isWhole, fun a line directive ha => ha.add line directive,
    fun a b ha _ => ha.merge b, fun a b c ha hb hc => ?_⟩
  have hleft := (AddsTexts.merge a b).trans (AddsTexts.merge (a.merge b) c)
  have hright := AddsTexts.merge a (b.merge c)
  exact hleft.ext hright fun n => textAt_eq_of_linesAt_eq (linesAt_merge_merge ha hb hc n)

-- The brace and the end of the declaration are left out either way, and there is a line without a
-- text.
def looseEnds : Annotations := .ofList [(7, "n;\n\x7d\nint i;\n"), (9, ""), (11, "\n\nx;\n")]

theorem guardedStep_merge_looseEnds :
    guardedStep.IsBuilt ∧ guardedStep.HasWholeTexts ∧ blockEnd.HasWholeTexts ∧
      looseEnds.HasWholeTexts ∧ (looseEnds.add 9 "y;").HasWholeTexts ∧
      (blockEnd.merge looseEnds).HasWholeTexts ∧
      (guardedStep.merge blockEnd).merge looseEnds =
        guardedStep.merge (blockEnd.merge looseEnds) := by
  obtain ⟨hbuilt, hadd, hmerge, hassoc⟩ := merge_assoc_of_whole
  have ha : guardedStep.IsBuilt := .add .empty _ _
  have hb : blockEnd.HasWholeTexts := by decide +kernel
  have hc : looseEnds.HasWholeTexts := by decide +kernel
  exact ⟨ha, hbuilt _ ha, hb, hc, hadd _ 9 "y;" hc, hmerge _ _ hb hc,
    hassoc _ _ _ (hbuilt _ ha) hb hc⟩

end Annotations

end LoopPragma
