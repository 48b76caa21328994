import LoopPragma.FactTable
import LoopPragma.Placement.Progress
import LoopPragma.Proofs.Annotations.Pieces

namespace LoopPragma

namespace Text

variable {old new : List Char}

theorem newline_prefix_of_replaceAll (hne : new ≠ []) (hline : '\n' ∉ new) {cs : List Char}
    (h : ['\n'] <+: replaceAll old new cs ++ ['\n']) : ['\n'] <+: cs ++ ['\n'] := by
  cases cs with
  | nil => exact List.prefix_rfl
  | cons c cs =>
      rw [replaceAll] at h
      split at h
      · obtain ⟨d, new, rfl⟩ := List.exists_cons_of_ne_nil hne
        have hd : '\n' = d := (List.cons_prefix_cons.mp h).1
        exact absurd (hd ▸ List.mem_cons_self) hline
      · have hc : '\n' = c := (List.cons_prefix_cons.mp h).1
        exact List.cons_prefix_cons.mpr ⟨hc, List.nil_prefix⟩

-- Text without a newline lets no new line begin, so the lines end in the same characters, unless
-- in one of the text put in.
theorem not_line_infix_replaceAll {c : Char} (hne : new ≠ []) (hline : '\n' ∉ new) (hc : c ∉ new)
    {cs : List Char} (h : ¬[c, '\n'] <:+: cs ++ ['\n']) :
    ¬[c, '\n'] <:+: replaceAll old new cs ++ ['\n'] := by
  fun_induction replaceAll old new cs with
  | case1 => exact h
  | case2 d cs hold ih =>
      obtain ⟨rest, hrest⟩ := hold.2
      rw [← hrest, List.drop_left] at ih ⊢
      have hafter : ¬[c, '\n'] <:+: replaceAll old new rest ++ ['\n'] := by
        apply ih
        intro hpart
        rw [← hrest, List.append_assoc] at h
        exact h (hpart.trans (List.suffix_append _ _).isInfix)
      rw [List.append_assoc, List.infix_append_iff]
      rintro (hpart | hpart | ⟨l, l', hsplit, hleft, hright⟩)
      · exact hc (hpart.subset List.mem_cons_self)
      · exact hafter hpart
      · cases l with
        | nil =>
            rw [List.nil_append] at hsplit
            exact hafter (hsplit ▸ hright.isInfix)
        | cons d l =>
            have hd : c = d := (List.cons.inj hsplit).1
            exact hc (hleft.subset (hd ▸ List.mem_cons_self))
  | case3 d cs hold ih =>
      rw [List.cons_append, List.infix_cons_iff] at h ⊢
      rintro (hfront | hpart)
      · have hstart := List.cons_prefix_cons.mp hfront
        have hnewline := newline_prefix_of_replaceAll hne hline hstart.2
        exact h (Or.inl (List.cons_prefix_cons.mpr ⟨hstart.1, hnewline⟩))
      · exact ih (fun hcs => h (Or.inr hcs)) hpart

end Text

theorem Annotations.line_infix_concat_iff {c : Char} (hc : c ≠ '\n') {cs : List Char} :
    [c, '\n'] <:+: cs ++ ['\n'] ↔ [c, '\n'] <:+: terminated cs := by
  rw [terminated]
  by_cases hend : endsLine cs
  · rw [if_pos hend, List.infix_concat_iff]
    constructor
    · rintro (⟨before, hbefore⟩ | hpart)
      · have hcs : before ++ [c] = cs := by
          have hsplit : before ++ [c] ++ ['\n'] = cs ++ ['\n'] := by simpa using hbefore
          exact (List.append_inj' hsplit rfl).1
        rw [← hcs] at hend
        exact absurd (by simpa [endsLine] using hend) hc
      · exact hpart
    · exact Or.inr
  · rw [if_neg hend]

namespace Place

theorem isAlphanum_of_mem_computationName {k : UInt32} {c : Char}
    (h : c ∈ (computationName k).toList) : c.isAlphanum := by
  rw [computationName, String.toList_append, List.mem_append] at h
  rcases h with h | h
  · have hletters : "AI".toList = ['A', 'I'] := rfl
    rw [hletters, List.mem_cons, List.mem_singleton] at h
    rcases h with rfl | rfl
    · rfl
    · rfl
  · rw [Nat.toString_eq_repr, Nat.toList_repr] at h
    have hdigit := Nat.isDigit_of_mem_toDigits (by decide) (by decide) h
    simp [Char.isAlphanum, hdigit]

theorem notMem_computationName {c : Char} (hc : c.isAlphanum = false) (k : UInt32) :
    c ∉ (computationName k).toList := by
  intro hmem
  rw [isAlphanum_of_mem_computationName hmem] at hc
  cases hc

theorem computationName_ne_nil (k : UInt32) : (computationName k).toList ≠ [] := by
  simp [computationName, String.toList_append]

end Place

namespace ExtractionFact

open Annotations

-- Whatever name is filled in, a line ends in nothing that no line of the text ended in.
theorem not_line_infix_fill {c : Char} (hc : c.isAlphanum = false) (hline : c ≠ '\n') (k : UInt32)
    {text : String} (h : ¬[c, '\n'] <:+: terminated text.toList) :
    ¬[c, '\n'] <:+: terminated (fill (Place.computationName k) text).toList := by
  rw [← line_infix_concat_iff hline] at h ⊢
  rw [fill, String.toList_ofList]
  exact Text.not_line_infix_replaceAll (Place.computationName_ne_nil k)
    (Place.notMem_computationName (by decide) k) (Place.notMem_computationName hc k) h

end ExtractionFact

end LoopPragma
