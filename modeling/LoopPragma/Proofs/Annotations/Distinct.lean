import Mathlib.Data.List.Nodup
import LoopPragma.LineList
import LoopPragma.Proofs.Annotations.Merging

namespace LoopPragma

open Text

namespace Annotations

-- Every text that is there ends with a newline, so none is empty.
def HasTexts (a : Annotations) : Prop := ∀ n text, a.get? n = some text → endsLine text.toList

def HasDistinctLines (a : Annotations) : Prop := ∀ n, (a.linesAt n).Nodup

variable {a b : Annotations}

theorem ne_empty_of_endsLine {text : String} (h : endsLine text.toList) : text ≠ "" := by
  rintro rfl
  cases h

theorem endsLine_terminated (directive : List Char) : endsLine (terminated directive) := by
  rw [terminated]
  by_cases hend : endsLine directive
  · rw [if_pos hend]
    exact hend
  · rw [if_neg hend]
    exact endsLine_append (by decide)

theorem get?_add (a : Annotations) (line : UInt32) (directive : String) (n : UInt32) :
    (a.add line directive).get? n = a.get? n ∨ ∃ text, (a.add line directive).get? n = some text ∧
      text.toList = (a.textAt n).toList ++ terminated directive.toList := by
  rw [add, add?]
  cases hextend : extend? (a.textAt line).toList directive.toList with
  | none => exact Or.inl rfl
  | some more =>
      rw [Option.map_some, Option.getD_some, get?, Std.ExtTreeMap.getElem?_insert]
      by_cases hn : compare line n = .eq
      · obtain rfl := Std.LawfulEqCmp.eq_of_compare hn
        refine Or.inr ⟨String.ofList more, if_pos hn, ?_⟩
        rw [String.toList_ofList, eq_append_of_extend? hextend]
      · exact Or.inl (if_neg hn)

namespace HasTexts

theorem empty : HasTexts ∅ := fun _ _ h => nomatch h

theorem add (h : a.HasTexts) (line : UInt32) (directive : String) :
    (a.add line directive).HasTexts := by
  intro n text hget
  rcases get?_add a line directive n with hsame | ⟨more, hmore, htext⟩
  · exact h n text (hsame ▸ hget)
  · obtain rfl : more = text := Option.some.inj (hmore.symm.trans hget)
    rw [htext]
    exact endsLine_append (endsLine_terminated _)

theorem merge (h : a.HasTexts) (b : Annotations) : (a.merge b).HasTexts :=
  List.foldlRecOn (motive := HasTexts) _ _ h fun _ h entry _ =>
    List.foldlRecOn (motive := HasTexts) _ _ h fun _ h directive _ => h.add entry.1 directive

theorem isWhole (h : a.HasTexts) (n : UInt32) : IsWhole (a.textAt n).toList := by
  rw [textAt]
  cases hget : a.get? n with
  | none => exact isWhole_nil
  | some text => exact Or.inr (by simpa [endsLine] using h n text hget)

theorem mem_lineNumbers_iff (h : a.HasTexts) {n : UInt32} :
    n ∈ a.lineNumbers ↔ ∃ line, line ∈ a.linesAt n := by
  rw [Annotations.mem_lineNumbers_iff, linesAt, textAt, ← List.length_pos_iff_exists_mem,
    List.length_pos_iff, ne_eq, pieces_eq_nil_iff]
  cases hget : a.get? n with
  | none => simp
  | some text => simpa using ne_empty_of_endsLine (h n text hget)

theorem mem_lineNumbers_merge_iff (ha : a.HasTexts) (hb : b.HasTexts) {n : UInt32} :
    n ∈ (a.merge b).lineNumbers ↔ n ∈ a.lineNumbers ∨ n ∈ b.lineNumbers := by
  rw [(ha.merge b).mem_lineNumbers_iff, ha.mem_lineNumbers_iff, hb.mem_lineNumbers_iff,
    linesAt_merge (ha.isWhole n) (hb.isWhole n)]
  constructor
  · rintro ⟨line, hline⟩
    exact (mem_of_mem_foldl_addLine hline).imp (fun h => ⟨line, h⟩) fun h => ⟨line, h⟩
  · intro hline
    rcases hline with ⟨line, hline⟩ | ⟨line, hline⟩
    · exact ⟨line, (prefix_foldl_addLine _ _).subset hline⟩
    · obtain ⟨k, hk, -⟩ := exists_suffix_foldl_addLine (Or.inr hline)
      exact ⟨k, hk⟩

end HasTexts

theorem nodup_addLine {lines : List (List Char)} (h : lines.Nodup) (line : List Char) :
    (addLine lines line).Nodup := by
  by_cases hsuffix : ∃ k ∈ lines, line <:+ k
  · rwa [addLine_of_suffix hsuffix]
  · have hnew : line ∉ lines := fun hmem => hsuffix ⟨line, hmem, List.suffix_rfl⟩
    rw [addLine_of_not_suffix hsuffix, ← List.concat_eq_append]
    exact List.Nodup.concat hnew h

namespace HasDistinctLines

theorem empty : HasDistinctLines ∅ := fun _ => List.nodup_nil

theorem add (h : a.HasDistinctLines) (htexts : a.HasTexts) {directive : String}
    (hline : IsLine directive.toList) (line : UInt32) :
    (a.add line directive).HasDistinctLines := by
  intro n
  by_cases hn : n = line
  · subst hn
    rw [linesAt, textAt_add_self, pieces_extend (htexts.isWhole n) hline]
    exact nodup_addLine (h n) _
  · rw [linesAt, textAt_add_of_ne a directive hn]
    exact h n

theorem merge (h : a.HasDistinctLines) (ha : a.HasTexts) (hb : b.HasTexts) :
    (a.merge b).HasDistinctLines := by
  intro n
  rw [linesAt_merge (ha.isWhole n) (hb.isWhole n)]
  exact List.foldlRecOn (motive := List.Nodup) _ _ (h n) fun _ h line _ => nodup_addLine h line

end HasDistinctLines

theorem foldl_merge {maps : List Annotations} (ha : a.HasTexts) (hmaps : ∀ b ∈ maps, b.HasTexts) :
    (maps.foldl merge a).HasTexts ∧
    (∀ n, n ∈ (maps.foldl merge a).lineNumbers ↔
      n ∈ a.lineNumbers ∨ ∃ b ∈ maps, n ∈ b.lineNumbers) ∧
    (a.HasDistinctLines → (maps.foldl merge a).HasDistinctLines) := by
  induction maps generalizing a with
  | nil => exact ⟨ha, by simp, id⟩
  | cons b maps ih =>
      have hb := hmaps b List.mem_cons_self
      obtain ⟨htexts, hlines, hdistinct⟩ :=
        ih (ha.merge b) fun c hc => hmaps c (List.mem_cons_of_mem _ hc)
      refine ⟨htexts, fun n => ?_, fun h => hdistinct (h.merge ha hb)⟩
      rw [List.foldl_cons, hlines, ha.mem_lineNumbers_merge_iff hb, or_assoc]
      simp

end Annotations

theorem isLine_loopDirective (family : Family) : IsLine (family.loopDirective "").toList := by
  have htext : family.loopDirective "" = family.loopPragma ++ "\n" := rfl
  refine ⟨family.loopPragma.toList, ?_, by rw [htext, String.toList_append]; rfl⟩
  cases family <;> decide

theorem LineList.annotations_lines (text : String) (family : Family) :
    (annotations text family).HasTexts ∧ (annotations text family).HasDistinctLines :=
  List.foldlRecOn (motive := fun a : Annotations => a.HasTexts ∧ a.HasDistinctLines) _ _
    ⟨.empty, .empty⟩ fun _ h line _ =>
      ⟨h.1.add line _, h.2.add h.1 (isLine_loopDirective family) line⟩

end LoopPragma
