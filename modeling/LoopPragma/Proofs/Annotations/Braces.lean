import LoopPragma.Proofs.Annotations.Filled
import Mathlib.Data.List.Dedup

namespace LoopPragma

open Text

namespace Annotations

def endsInBrace (line : List Char) : Bool := closingBrace.toList.isSuffixOf (terminated line)

def isBraceless (text : String) : Bool := (pieces text.toList).all fun line => !endsInBrace line

theorem brace_infix_iff {text : List Char} :
    closingBrace.toList <:+: text ↔ ∃ line ∈ pieces text, closingBrace.toList <:+ line :=
  line_infix_iff (w := ['\x7d']) (by decide)

theorem isBraceless_iff {text : String} :
    isBraceless text ↔ ¬closingBrace.toList <:+: terminated text.toList := by
  have hpart : closingBrace.toList <:+: terminated text.toList ↔
      ∃ line ∈ pieces text.toList, closingBrace.toList <:+ terminated line :=
    line_infix_terminated_iff (w := ['\x7d']) (by decide) (by decide)
  rw [hpart, isBraceless, List.all_eq_true]
  simp only [endsInBrace, Bool.not_eq_true', ← Bool.not_eq_true, List.isSuffixOf_iff_suffix,
    not_exists, not_and]

def allLines (a : Annotations) : List (List Char) :=
  a.toList.flatMap fun entry => pieces entry.2.toList

-- Whole lines, of which one is a closing brace if the text is closed, and no other ends in one.
structure IsClosed (closed : Bool) (text : List Char) : Prop where
  whole : IsWhole text
  only : ∀ line ∈ pieces text, closingBrace.toList <:+ line → line = closingBrace.toList
  count : (pieces text).count closingBrace.toList = closed.toNat

namespace IsClosed

variable {closed : Bool} {text more : List Char}

theorem empty : IsClosed false [] := ⟨isWhole_nil, nofun, rfl⟩

theorem brace_infix_iff (h : IsClosed closed text) : closingBrace.toList <:+: text ↔ closed := by
  rw [Annotations.brace_infix_iff]
  cases closed with
  | true =>
      have hmem : closingBrace.toList ∈ pieces text :=
        List.count_pos_iff.mp (h.count ▸ Nat.one_pos)
      exact ⟨fun _ => rfl, fun _ => ⟨_, hmem, List.suffix_rfl⟩⟩
  | false =>
      refine ⟨fun ⟨line, hline, hsuffix⟩ => ?_, nofun⟩
      obtain rfl := h.only line hline hsuffix
      exact absurd hline (List.count_eq_zero.mp h.count)

theorem append (h : IsClosed closed text) (hmore : IsClosed false more) :
    IsClosed closed (text ++ more) where
  whole := h.whole.append hmore.whole
  only := by
    rw [pieces_append h.whole]
    intro line hline
    exact (List.mem_append.mp hline).elim (h.only line) (hmore.only line)
  count := by
    rw [pieces_append h.whole, List.count_append, h.count, hmore.count]
    rfl

theorem of_isBraceless {directive : String} (h : isBraceless directive) :
    IsClosed false (terminated directive.toList) where
  whole := isWhole_terminated _
  only line hline hsuffix :=
    absurd (Annotations.brace_infix_iff.mpr ⟨line, hline, hsuffix⟩) (isBraceless_iff.mp h)
  count := List.count_eq_zero.mpr fun hmem =>
    isBraceless_iff.mp h (infix_of_mem_pieces hmem)

theorem close (h : IsClosed false text) : IsClosed true (text ++ closingBrace.toList) where
  whole := h.whole.append (Or.inr (by decide))
  only := by
    rw [pieces_append h.whole]
    intro line hline hsuffix
    rcases List.mem_append.mp hline with hline | hline
    · exact h.only line hline hsuffix
    · exact List.mem_singleton.mp hline
  count := by
    rw [pieces_append h.whole, List.count_append, h.count]
    decide

theorem extend (h : IsClosed closed text) :
    IsClosed true ((extend? text closingBrace.toList).getD text) := by
  have hbrace : terminated closingBrace.toList = closingBrace.toList := by decide
  rw [extend?, hbrace]
  cases closed with
  | true =>
      rw [if_pos (Or.inr (occursIn_iff.mpr (h.brace_infix_iff.mpr rfl)))]
      exact h
  | false =>
      have hnew : ¬(closingBrace.toList = [] ∨ occursIn closingBrace.toList text) := by
        rintro (hnil | hpart)
        · exact absurd hnil (by decide)
        · exact absurd (h.brace_infix_iff.mp (occursIn_iff.mp hpart)) nofun
      rw [if_neg hnew]
      exact h.close

end IsClosed

-- One closing brace at each of some lines, and no other line that ends in a brace.
def Braced (stops : List UInt32) (a : Annotations) : Prop :=
  ∀ n, IsClosed (decide (n ∈ stops)) (a.textAt n).toList

namespace Braced

variable {stops : List UInt32} {a b : Annotations}

theorem empty : Braced [] ∅ := fun _ => .empty

theorem add (h : Braced stops a) {directive : String} (hfree : isBraceless directive)
    (line : UInt32) : Braced stops (a.add line directive) := by
  intro n
  rcases textAt_add a line directive n with hsame | ⟨-, hmore⟩
  · rw [hsame]
    exact h n
  · rw [hmore]
    exact (h n).append (.of_isBraceless hfree)

-- A closing brace goes behind the text of its line only where none stands yet.
theorem close (h : Braced stops a) (line : UInt32) :
    Braced (stops ++ [line]) (a.add line closingBrace) := by
  intro n
  by_cases hn : n = line
  · subst hn
    have hmem : n ∈ stops ++ [n] := List.mem_append_right _ List.mem_cons_self
    rw [textAt_add_self, decide_eq_true hmem]
    exact (h n).extend
  · have hmem : n ∈ stops ++ [line] ↔ n ∈ stops := by simp [hn]
    rw [textAt_add_of_ne a _ hn, decide_eq_decide.mpr hmem]
    exact h n

theorem merge (h : Braced stops a) (hb : Braced [] b) : Braced stops (a.merge b) := by
  have hfree {entry : UInt32 × String} (he : entry ∈ b.toList) {directive : String}
      (hd : directive ∈ directives entry.2) : isBraceless directive := by
    obtain ⟨piece, hpiece, rfl⟩ := List.mem_map.mp hd
    have htext : IsClosed false entry.2.toList := by
      rw [← textAt_of_mem_toList he]
      exact hb entry.1
    rw [isBraceless_iff, String.toList_ofList, terminated_of_mem_pieces htext.whole hpiece]
    intro hpart
    have hbrace := hpart.trans (infix_of_mem_pieces hpiece)
    exact absurd (htext.brace_infix_iff.mp hbrace) nofun
  refine List.foldlRecOn (motive := Braced stops) b.toList _ h fun a ha entry he => ?_
  exact List.foldlRecOn (motive := Braced stops) _ _ ha fun a ha directive hd =>
    ha.add (hfree he hd) _

theorem instantiate {fact : ExtractionFact}
    (hfree : ∀ entry ∈ fact.comments.toList, isBraceless entry.2) (k : UInt32) :
    Braced [] (fact.instantiate (Place.computationName k)).comments := by
  refine List.foldlRecOn (motive := Braced []) _ _ empty fun a ha entry he => ha.add ?_ _
  rw [isBraceless_iff]
  exact ExtractionFact.not_line_infix_fill (by decide) (by decide) k
    (isBraceless_iff.mp (hfree entry he))

theorem count_allLines (h : Braced stops a) :
    a.allLines.count closingBrace.toList = stops.dedup.length := by
  have hentries {entries : List (UInt32 × String)} (hsub : ∀ entry ∈ entries, entry ∈ a.toList) :
      (entries.flatMap fun entry => pieces entry.2.toList).count closingBrace.toList =
        ((entries.map Prod.fst).filter (· ∈ stops)).length := by
    induction entries with
    | nil => rfl
    | cons entry entries ih =>
        have hcount := (h entry.1).count
        rw [textAt_of_mem_toList (hsub entry List.mem_cons_self)] at hcount
        rw [List.flatMap_cons, List.count_append, hcount,
          ih fun e he => hsub e (List.mem_cons_of_mem _ he), List.map_cons, List.filter_cons]
        by_cases hmem : entry.1 ∈ stops
        · simp [hmem, Nat.add_comm]
        · simp [hmem]
  have hmem (n : UInt32) : n ∈ a.lineNumbers.filter (· ∈ stops) ↔ n ∈ stops.dedup := by
    rw [List.mem_filter, List.mem_dedup, decide_eq_true_iff, and_iff_right_iff_imp]
    intro hn
    rw [mem_lineNumbers_iff, Option.isSome_iff_ne_none]
    intro hnone
    have hcount := (h n).count
    rw [textAt, hnone, decide_eq_true hn] at hcount
    exact absurd hcount (by decide)
  rw [allLines, hentries fun _ he => he]
  have hperm := (List.perm_ext_iff_of_nodup (a.nodup_lineNumbers.filter _)
    stops.nodup_dedup).mpr hmem
  exact hperm.length_eq

end Braced

end Annotations

end LoopPragma
