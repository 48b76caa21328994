import LoopPragma.Directive
import LoopPragma.Proofs.Annotations.Pieces

namespace LoopPragma

namespace Text

theorem notMem_of_mem_pieces {p cs : List Char} (h : p ∈ pieces cs) :
    ∃ w, '\n' ∉ w ∧ (p = w ∨ p = w ++ ['\n']) := by
  induction cs generalizing p with
  | nil => cases h
  | cons c cs ih =>
      rcases mem_consPiece h with rfl | h | ⟨hc, q, hq, rfl⟩
      · by_cases hc : c = '\n'
        · exact ⟨[], List.not_mem_nil, Or.inr (by rw [hc, List.nil_append])⟩
        · exact ⟨[c], by simpa using Ne.symm hc, Or.inl rfl⟩
      · exact ih h
      · obtain ⟨w, hw, hend⟩ := ih hq
        have hcw : '\n' ∉ c :: w := by simp [Ne.symm hc, hw]
        exact ⟨c :: w, hcw, hend.imp (congrArg (c :: ·)) (congrArg (c :: ·))⟩

def IsLine (line : List Char) : Prop := ∃ w, '\n' ∉ w ∧ line = w ++ ['\n']

theorem IsLine.isWhole {line : List Char} (h : IsLine line) : IsWhole line := by
  obtain ⟨w, -, rfl⟩ := h
  exact Or.inr (by simp)

theorem IsLine.ne_nil {line : List Char} (h : IsLine line) : line ≠ [] := by
  obtain ⟨w, -, rfl⟩ := h
  simp

theorem IsLine.pieces_eq {line : List Char} (h : IsLine line) : pieces line = [line] := by
  obtain ⟨w, hw, rfl⟩ := h
  exact pieces_line hw []

theorem IsLine.infix_iff {line cs : List Char} (h : IsLine line) :
    line <:+: cs ↔ ∃ p ∈ pieces cs, line <:+ p := by
  obtain ⟨w, hw, rfl⟩ := h
  exact line_infix_iff hw

end Text

namespace Annotations

open Text

theorem isLine_of_mem_pieces {p cs : List Char} (h : IsWhole cs) (hp : p ∈ pieces cs) :
    IsLine p := by
  obtain ⟨w, hw, rfl | rfl⟩ := notMem_of_mem_pieces hp
  · have hend := isWhole_terminated p
    rw [terminated_of_mem_pieces h hp] at hend
    have hlast := hend.resolve_left (ne_nil_of_mem_pieces hp)
    exact absurd (List.mem_of_getLast? hlast) hw
  · exact ⟨w, hw, rfl⟩

def extendAll (text : List Char) (directives : List (List Char)) : List Char :=
  directives.foldl (fun text directive => (extend? text directive).getD text) text

theorem isWhole_extend {text : List Char} (h : IsWhole text) (directive : List Char) :
    IsWhole ((extend? text directive).getD text) := by
  cases hextend : extend? text directive with
  | none => exact h
  | some more =>
      rw [Option.getD_some, eq_append_of_extend? hextend]
      exact h.append (isWhole_terminated directive)

theorem isWhole_extendAll {text : List Char} (h : IsWhole text) (directives : List (List Char)) :
    IsWhole (extendAll text directives) :=
  List.foldlRecOn (motive := IsWhole) directives _ h fun _ h directive _ =>
    isWhole_extend h directive

theorem textAt_addText_self (a : Annotations) (n : UInt32) (text : String) :
    ((a.addText n text).textAt n).toList = extendAll (a.textAt n).toList (pieces text.toList) := by
  have hfold (ps : List (List Char)) (a : Annotations) :
      (((ps.map String.ofList).foldl (fun a directive => a.add n directive) a).textAt n).toList =
        extendAll (a.textAt n).toList ps := by
    induction ps generalizing a with
    | nil => rfl
    | cons p ps ih =>
        rw [List.map_cons, List.foldl_cons, ih, textAt_add_self, String.toList_ofList]
        rfl
  exact hfold _ a

theorem textAt_addText_of_ne (a : Annotations) {line n : UInt32} (text : String) (h : n ≠ line) :
    (a.addText line text).textAt n = a.textAt n :=
  List.foldlRecOn (motive := fun b => b.textAt n = a.textAt n) _ _ rfl fun b hb directive _ =>
    (textAt_add_of_ne b directive h).trans hb

theorem textAt_merge (a b : Annotations) (n : UInt32) :
    ((a.merge b).textAt n).toList =
      extendAll (a.textAt n).toList (pieces (b.textAt n).toList) := by
  have hfold (entries : List (UInt32 × String)) (hsub : ∀ entry ∈ entries, entry ∈ b.toList)
      (hnodup : (entries.map Prod.fst).Nodup) (a : Annotations) :
      ((entries.foldl (fun a entry => a.addText entry.1 entry.2) a).textAt n).toList =
        if n ∈ entries.map Prod.fst then
          extendAll (a.textAt n).toList (pieces (b.textAt n).toList)
        else (a.textAt n).toList := by
    induction entries generalizing a with
    | nil => rfl
    | cons entry entries ih =>
        have hentry := textAt_of_mem_toList (hsub entry List.mem_cons_self)
        rw [List.map_cons, List.nodup_cons] at hnodup
        rw [List.foldl_cons, ih (fun e he => hsub e (List.mem_cons_of_mem _ he)) hnodup.2,
          List.map_cons]
        by_cases hn : n = entry.1
        · subst hn
          rw [if_neg hnodup.1, if_pos List.mem_cons_self, textAt_addText_self, hentry]
        · simp only [List.mem_cons, hn, false_or, textAt_addText_of_ne a entry.2 hn]
  rw [merge, hfold b.toList (fun _ he => he) b.nodup_lineNumbers]
  by_cases hn : n ∈ b.lineNumbers
  · exact if_pos hn
  · have hnone : b.textAt n = "" := by
      rw [mem_lineNumbers_iff, Option.not_isSome_iff_eq_none] at hn
      rw [textAt, hn, Option.getD_none]
    rw [hnone]
    exact if_neg hn

def linesAt (a : Annotations) (n : UInt32) : List (List Char) := pieces (a.textAt n).toList

-- Lines with one more behind them, unless one of them ends in it.
def addLine (lines : List (List Char)) (line : List Char) : List (List Char) :=
  if lines.any line.isSuffixOf then lines else lines ++ [line]

section Lines

variable {lines more : List (List Char)} {line : List Char}

theorem addLine_of_suffix (h : ∃ k ∈ lines, line <:+ k) : addLine lines line = lines := by
  rw [addLine, if_pos (by simpa using h)]

theorem addLine_of_not_suffix (h : ¬∃ k ∈ lines, line <:+ k) :
    addLine lines line = lines ++ [line] := by
  rw [addLine, if_neg (by simpa using h)]

theorem prefix_addLine (lines : List (List Char)) (line : List Char) :
    lines <+: addLine lines line := by
  by_cases h : ∃ k ∈ lines, line <:+ k
  · exact (addLine_of_suffix h).symm ▸ List.prefix_rfl
  · rw [addLine_of_not_suffix h]
    exact List.prefix_append _ _

theorem prefix_foldl_addLine (lines more : List (List Char)) :
    lines <+: more.foldl addLine lines :=
  List.foldlRecOn (motive := (lines <+: ·)) more _ List.prefix_rfl fun _ h line _ =>
    h.trans (prefix_addLine _ line)

theorem mem_of_mem_foldl_addLine (h : line ∈ more.foldl addLine lines) :
    line ∈ lines ∨ line ∈ more := by
  induction more generalizing lines with
  | nil => exact Or.inl h
  | cons l more ih =>
      rcases ih h with hline | hline
      · by_cases hl : ∃ k ∈ lines, l <:+ k
        · rw [addLine_of_suffix hl] at hline
          exact Or.inl hline
        · rw [addLine_of_not_suffix hl, List.mem_append, List.mem_singleton] at hline
          rcases hline with hline | rfl
          · exact Or.inl hline
          · exact Or.inr List.mem_cons_self
      · exact Or.inr (List.mem_cons_of_mem _ hline)

-- What is left out is still to be read, at the end of another line.
theorem exists_suffix_foldl_addLine (h : line ∈ lines ∨ line ∈ more) :
    ∃ k ∈ more.foldl addLine lines, line <:+ k := by
  induction more generalizing lines with
  | nil => exact ⟨line, h.resolve_right List.not_mem_nil, List.suffix_rfl⟩
  | cons l more ih =>
      rcases h with h | h
      · exact ih (Or.inl ((prefix_addLine lines l).subset h))
      · rcases List.mem_cons.mp h with rfl | h
        · by_cases hl : ∃ k ∈ lines, line <:+ k
          · obtain ⟨k, hk, hsuffix⟩ := hl
            have hkeep : k ∈ more.foldl addLine (addLine lines line) :=
              (prefix_foldl_addLine _ more).subset ((prefix_addLine lines line).subset hk)
            exact ⟨k, hkeep, hsuffix⟩
          · refine ih (Or.inl ?_)
            rw [addLine_of_not_suffix hl]
            exact List.mem_append_right _ List.mem_cons_self
        · exact ih (Or.inr h)

theorem mem_foldl_addLine_of_suffix (h : ∃ k ∈ lines, line <:+ k) :
    line ∈ more.foldl addLine lines ↔ line ∈ lines := by
  induction more generalizing lines with
  | nil => exact Iff.rfl
  | cons l more ih =>
      have hkeep : ∃ k ∈ addLine lines l, line <:+ k := by
        obtain ⟨k, hk, hsuffix⟩ := h
        exact ⟨k, (prefix_addLine lines l).subset hk, hsuffix⟩
      rw [List.foldl_cons, ih hkeep]
      by_cases hl : ∃ k ∈ lines, l <:+ k
      · rw [addLine_of_suffix hl]
      · have hne : line ≠ l := by
          rintro rfl
          exact hl h
        rw [addLine_of_not_suffix hl, List.mem_append, List.mem_singleton, or_iff_left hne]

theorem mem_foldl_addLine_iff (h : line ∈ more) :
    line ∈ more.foldl addLine lines ↔
      line ∈ lines ∨ ∀ k ∈ lines ++ more.takeWhile (· ≠ line), ¬line <:+ k := by
  obtain ⟨before, after, hmore, hbefore⟩ := List.eq_append_cons_of_mem h
  have htake : more.takeWhile (· ≠ line) = before := by
    have hall : ∀ k ∈ before, decide (k ≠ line) = true := by
      intro k hk
      exact decide_eq_true fun heq => hbefore (heq ▸ hk)
    rw [hmore, List.takeWhile_append_of_pos hall]
    simp
  rw [htake, hmore, List.foldl_append, List.foldl_cons]
  by_cases hcovered : ∃ k ∈ lines ++ before, line <:+ k
  · obtain ⟨k, hk, hsuffix⟩ := hcovered
    obtain ⟨k', hk', hsuffix'⟩ := exists_suffix_foldl_addLine (List.mem_append.mp hk)
    have hlater : ∃ k ∈ before.foldl addLine lines, line <:+ k := ⟨k', hk', hsuffix.trans hsuffix'⟩
    rw [addLine_of_suffix hlater, mem_foldl_addLine_of_suffix hlater]
    constructor
    · intro hline
      exact Or.inl ((mem_of_mem_foldl_addLine hline).resolve_right hbefore)
    · rintro (hline | hnone)
      · exact (prefix_foldl_addLine lines before).subset hline
      · exact absurd hsuffix (hnone k hk)
  · have hnew : ¬∃ k ∈ before.foldl addLine lines, line <:+ k := by
      rintro ⟨k, hk, hsuffix⟩
      exact hcovered ⟨k, List.mem_append.mpr (mem_of_mem_foldl_addLine hk), hsuffix⟩
    have hlast : line ∈ addLine (before.foldl addLine lines) line := by
      rw [addLine_of_not_suffix hnew]
      exact List.mem_append_right _ List.mem_cons_self
    refine iff_of_true ((prefix_foldl_addLine _ after).subset hlast) (Or.inr ?_)
    intro k hk hsuffix
    exact hcovered ⟨k, hk, hsuffix⟩

end Lines

-- A line goes behind whole lines exactly if none of them ends in it.
theorem pieces_extend {text line : List Char} (h : IsWhole text) (hline : IsLine line) :
    pieces ((extend? text line).getD text) = addLine (pieces text) line := by
  have hoccurs : (line = [] ∨ occursIn (terminated line) text) ↔
      ∃ k ∈ pieces text, line <:+ k := by
    rw [or_iff_right hline.ne_nil, terminated_of_isWhole hline.isWhole hline.ne_nil, occursIn_iff,
      hline.infix_iff]
  rw [extend?]
  by_cases hsuffix : ∃ k ∈ pieces text, line <:+ k
  · rw [if_pos (hoccurs.mpr hsuffix), addLine_of_suffix hsuffix]
    rfl
  · rw [if_neg (mt hoccurs.mp hsuffix), addLine_of_not_suffix hsuffix, Option.getD_some,
      terminated_of_isWhole hline.isWhole hline.ne_nil, pieces_append h, hline.pieces_eq]

theorem pieces_extendAll {text : List Char} {lines : List (List Char)} (h : IsWhole text)
    (hlines : ∀ line ∈ lines, IsLine line) :
    pieces (extendAll text lines) = lines.foldl addLine (pieces text) := by
  induction lines generalizing text with
  | nil => rfl
  | cons line lines ih =>
      have hrest := ih (isWhole_extend h line) fun l hl => hlines l (List.mem_cons_of_mem _ hl)
      rw [List.foldl_cons, ← pieces_extend h (hlines line List.mem_cons_self), ← hrest]
      rfl

theorem linesAt_merge {a b : Annotations} {n : UInt32} (ha : IsWhole (a.textAt n).toList)
    (hb : IsWhole (b.textAt n).toList) :
    (a.merge b).linesAt n = (b.linesAt n).foldl addLine (a.linesAt n) := by
  rw [linesAt, textAt_merge, pieces_extendAll ha fun _ hline => isLine_of_mem_pieces hb hline]
  rfl

def HasWholeTexts (a : Annotations) : Prop := ∀ n, IsWhole (a.textAt n).toList

namespace HasWholeTexts

variable {a : Annotations}

theorem empty : HasWholeTexts ∅ := fun _ => isWhole_nil

theorem add (h : a.HasWholeTexts) (line : UInt32) (directive : String) :
    (a.add line directive).HasWholeTexts := by
  intro n
  rcases textAt_add a line directive n with hsame | ⟨-, hmore⟩
  · rw [hsame]
    exact h n
  · rw [hmore]
    exact (h n).append (isWhole_terminated _)

theorem merge (h : a.HasWholeTexts) (b : Annotations) : (a.merge b).HasWholeTexts := by
  intro n
  rw [textAt_merge]
  exact isWhole_extendAll (h n) _

end HasWholeTexts

-- What can be built from nothing by adding directives and merging.
inductive IsBuilt : Annotations → Prop
  | empty : IsBuilt ∅
  | add {a} (ha : IsBuilt a) (line directive) : IsBuilt (a.add line directive)
  | merge {a b} (ha : IsBuilt a) (hb : IsBuilt b) : IsBuilt (a.merge b)

theorem IsBuilt.isWhole {a : Annotations} (h : a.IsBuilt) : a.HasWholeTexts := by
  induction h with
  | empty => exact .empty
  | add _ line directive ih => exact ih.add line directive
  | @merge a b _ _ ih _ => exact ih.merge b

-- After a merge the lines of the first text stand in front, and behind them only lines of the
-- second. A line of the second is one of them unless a line of the first, or a line in front of it
-- in the second, ends in it. Then it is to be read at the end of another line only.
theorem merge_leaves_out_line_ends {a b : Annotations} (ha : a.IsBuilt) (hb : b.IsBuilt)
    (n : UInt32) :
    a.linesAt n <+: (a.merge b).linesAt n ∧
    (∀ line ∈ (a.merge b).linesAt n, line ∈ a.linesAt n ∨ line ∈ b.linesAt n) ∧
    (∀ line ∈ b.linesAt n, ∃ k ∈ (a.merge b).linesAt n, line <:+ k) ∧
    ∀ line ∈ b.linesAt n, line ∈ (a.merge b).linesAt n ↔
      line ∈ a.linesAt n ∨
        ∀ k ∈ a.linesAt n ++ (b.linesAt n).takeWhile (· ≠ line), ¬line <:+ k := by
  rw [linesAt_merge (ha.isWhole n) (hb.isWhole n)]
  refine ⟨prefix_foldl_addLine _ _, ?_, fun line hline => ?_, fun line hline => ?_⟩
  · exact fun line hline => mem_of_mem_foldl_addLine hline
  · exact exists_suffix_foldl_addLine (Or.inr hline)
  · exact mem_foldl_addLine_iff hline

-- A statement that ends in a brace, and the closing brace of a block with a declaration behind it.
def guardedStep : Annotations := (∅ : Annotations).add 7 "if (n > 0) \x7b n = 1; \x7d"

def blockEnd : Annotations := ((∅ : Annotations).add 7 closingBrace).add 7 "long n;"

-- The declaration is kept, since nothing in front of it ends like it.
theorem guardedStep_merge_blockEnd : guardedStep.IsBuilt ∧ blockEnd.IsBuilt ∧
    "long n;\n".toList ∈ (guardedStep.merge blockEnd).linesAt 7 := by
  have ha : guardedStep.IsBuilt := .add .empty _ _
  have hb : blockEnd.IsBuilt := .add (.add .empty _ _) _ _
  have hline : "long n;\n".toList ∈ blockEnd.linesAt 7 := by decide +kernel
  have hnew : ∀ k ∈ guardedStep.linesAt 7 ++
      (blockEnd.linesAt 7).takeWhile (· ≠ "long n;\n".toList), ¬"long n;\n".toList <:+ k := by
    decide +kernel
  exact ⟨ha, hb, ((merge_leaves_out_line_ends ha hb 7).2.2.2 _ hline).mpr (Or.inr hnew)⟩

-- The brace of the block is lost, though no line there is a brace.
theorem guardedStep_hides_brace : guardedStep.IsBuilt ∧ blockEnd.IsBuilt ∧
    closingBrace.toList ∈ blockEnd.linesAt 7 ∧ closingBrace.toList ∉ guardedStep.linesAt 7 ∧
    closingBrace.toList ∉ (guardedStep.merge blockEnd).linesAt 7 ∧
    (guardedStep.merge blockEnd).get? 7 = some "if (n > 0) \x7b n = 1; \x7d\nlong n;\n" := by
  have ha : guardedStep.IsBuilt := .add .empty _ _
  have hb : blockEnd.IsBuilt := .add (.add .empty _ _) _ _
  refine ⟨ha, hb, ?_⟩
  decide +kernel

end Annotations

end LoopPragma
