import LoopPragma.Proofs.Annotations.Sourced

namespace LoopPragma

namespace Text

def IsWhole (cs : List Char) : Prop := cs = [] ∨ cs.getLast? = some '\n'

theorem isWhole_nil : IsWhole [] := Or.inl rfl

theorem IsWhole.append {cs more : List Char} (hcs : IsWhole cs) (hmore : IsWhole more) :
    IsWhole (cs ++ more) := by
  rcases hmore with rfl | hlast
  · simpa using hcs
  · right
    rw [List.getLast?_append, hlast]
    rfl

theorem IsWhole.of_cons {c : Char} {cs : List Char} (h : IsWhole (c :: cs)) : IsWhole cs := by
  cases cs with
  | nil => exact isWhole_nil
  | cons d cs =>
      have hlast : (c :: d :: cs).getLast? = some '\n' := h.resolve_left nofun
      exact Or.inr (by simpa using hlast)

theorem pieces_eq_nil_iff {cs : List Char} : pieces cs = [] ↔ cs = [] := by
  constructor
  · intro h
    rw [← flatten_pieces cs, h, List.flatten_nil]
  · rintro rfl
    rfl

theorem consPiece_append (c : Char) {ps : List (List Char)} (hps : c = '\n' ∨ ps ≠ [])
    (qs : List (List Char)) : consPiece c (ps ++ qs) = consPiece c ps ++ qs := by
  unfold consPiece
  by_cases hc : c = '\n'
  · simp [hc]
  · cases ps with
    | nil => exact absurd (hps.resolve_left hc) (by simp)
    | cons p ps => simp [hc]

theorem mem_consPiece {c : Char} {p : List Char} {ps : List (List Char)} (h : p ∈ consPiece c ps) :
    p = [c] ∨ p ∈ ps ∨ c ≠ '\n' ∧ ∃ q ∈ ps, p = c :: q := by
  unfold consPiece at h
  by_cases hc : c = '\n'
  · rw [if_pos hc] at h
    exact (List.mem_cons.mp h).imp_right Or.inl
  · rw [if_neg hc] at h
    cases ps with
    | nil => exact Or.inl (List.mem_singleton.mp h)
    | cons q qs =>
        rcases List.mem_cons.mp h with rfl | h
        · exact Or.inr (Or.inr ⟨hc, q, List.mem_cons_self, rfl⟩)
        · exact Or.inr (Or.inl (List.mem_cons_of_mem _ h))

theorem ne_nil_of_mem_pieces {p cs : List Char} (h : p ∈ pieces cs) : p ≠ [] := by
  induction cs with
  | nil => cases h
  | cons c cs ih =>
      rcases mem_consPiece h with rfl | h | ⟨-, q, -, rfl⟩
      · simp
      · exact ih h
      · simp

theorem pieces_append {cs : List Char} (h : IsWhole cs) (more : List Char) :
    pieces (cs ++ more) = pieces cs ++ pieces more := by
  induction cs with
  | nil => rfl
  | cons c cs ih =>
      have hc : c = '\n' ∨ pieces cs ≠ [] := by
        cases cs with
        | nil =>
            have hlast : [c].getLast? = some '\n' := h.resolve_left nofun
            exact Or.inl (by simpa using hlast)
        | cons d cs => exact Or.inr fun hnil => nomatch pieces_eq_nil_iff.mp hnil
      rw [List.cons_append, pieces_cons, pieces_cons, ih h.of_cons, consPiece_append c hc]

theorem pieces_line {w : List Char} (hw : '\n' ∉ w) (rest : List Char) :
    pieces (w ++ '\n' :: rest) = (w ++ ['\n']) :: pieces rest := by
  induction w with
  | nil => simp [consPiece]
  | cons c w ih =>
      have hc : c ≠ '\n' := fun heq => hw (heq ▸ List.mem_cons_self)
      have htail : '\n' ∉ w := fun hmem => hw (List.mem_cons_of_mem _ hmem)
      rw [List.cons_append, pieces_cons, ih htail, consPiece, if_neg hc]
      rfl

theorem infix_of_mem_pieces {p cs : List Char} (h : p ∈ pieces cs) : p <:+: cs := by
  have hflat := List.infix_of_mem_flatten h
  rwa [flatten_pieces] at hflat

theorem exists_suffix_consPiece (c : Char) {p : List Char} {ps : List (List Char)} (h : p ∈ ps) :
    ∃ q ∈ consPiece c ps, p <:+ q := by
  unfold consPiece
  by_cases hc : c = '\n'
  · rw [if_pos hc]
    exact ⟨p, List.mem_cons_of_mem _ h, List.suffix_rfl⟩
  · rw [if_neg hc]
    cases ps with
    | nil => cases h
    | cons q qs =>
        rcases List.mem_cons.mp h with rfl | h
        · exact ⟨c :: p, List.mem_cons_self, List.suffix_cons _ _⟩
        · exact ⟨p, List.mem_cons_of_mem _ h, List.suffix_rfl⟩

-- A text that ends with its only newline occurs exactly where a line ends with it.
theorem line_infix_iff {w : List Char} (hw : '\n' ∉ w) {cs : List Char} :
    w ++ ['\n'] <:+: cs ↔ ∃ p ∈ pieces cs, w ++ ['\n'] <:+ p := by
  constructor
  · intro h
    induction cs with
    | nil => exact absurd (List.infix_nil.mp h) (by simp)
    | cons c cs ih =>
        rcases List.infix_cons_iff.mp h with hfront | hpart
        · obtain ⟨rest, hrest⟩ := hfront
          refine ⟨w ++ ['\n'], ?_, List.suffix_rfl⟩
          rw [← hrest, List.append_assoc, List.singleton_append, pieces_line hw]
          exact List.mem_cons_self
        · obtain ⟨p, hp, hsuffix⟩ := ih hpart
          obtain ⟨q, hq, hlonger⟩ := exists_suffix_consPiece c hp
          exact ⟨q, hq, hsuffix.trans hlonger⟩
  · rintro ⟨p, hp, hsuffix⟩
    exact hsuffix.isInfix.trans (infix_of_mem_pieces hp)

end Text

namespace Annotations

open Text

theorem isWhole_terminated (directive : List Char) : IsWhole (terminated directive) := by
  rw [terminated]
  by_cases hend : endsLine directive
  · rw [if_pos hend]
    exact Or.inr (by simpa [endsLine] using hend)
  · rw [if_neg hend]
    exact Or.inr (by simp)

theorem terminated_ne_nil (directive : List Char) : terminated directive ≠ [] := by
  rw [terminated]
  by_cases hend : endsLine directive
  · rw [if_pos hend]
    rintro rfl
    cases hend
  · rw [if_neg hend]
    simp

theorem terminated_cons (c : Char) {cs : List Char} (h : cs ≠ []) :
    terminated (c :: cs) = c :: terminated cs := by
  have hends : endsLine (c :: cs) = endsLine cs := by
    rw [endsLine, endsLine, List.getLast?_cons_of_ne_nil h]
  rw [terminated, terminated, hends]
  by_cases hend : endsLine cs
  · rw [if_pos hend, if_pos hend]
  · rw [if_neg hend, if_neg hend]
    rfl

theorem pieces_terminated {cs : List Char} (h : cs ≠ []) :
    pieces (terminated cs) = (pieces cs).map terminated := by
  induction cs with
  | nil => exact absurd rfl h
  | cons c cs ih =>
      by_cases hcs : cs = []
      · subst hcs
        by_cases hc : c = '\n'
        · subst hc
          decide
        · have hend : endsLine [c] = false := by simp [endsLine, hc]
          simp [terminated, hend, consPiece, hc]
      · have hmap : consPiece c ((pieces cs).map terminated) =
            (consPiece c (pieces cs)).map terminated := by
          cases hps : pieces cs with
          | nil => exact absurd (pieces_eq_nil_iff.mp hps) hcs
          | cons p ps =>
              have hp : p ≠ [] := ne_nil_of_mem_pieces (hps ▸ List.mem_cons_self)
              by_cases hc : c = '\n'
              · subst hc
                have hline : terminated ['\n'] = ['\n'] := by decide
                simp [consPiece, hline]
              · simp [consPiece, hc, terminated_cons c hp]
        rw [terminated_cons c hcs, pieces_cons, ih hcs, hmap, pieces_cons]

theorem terminated_of_isWhole {cs : List Char} (h : IsWhole cs) (hne : cs ≠ []) :
    terminated cs = cs := by
  have hend : endsLine cs := by simpa [endsLine] using h.resolve_left hne
  rw [terminated, if_pos hend]

theorem terminated_of_mem_pieces {cs p : List Char} (h : IsWhole cs) (hp : p ∈ pieces cs) :
    terminated p = p := by
  have hne : cs ≠ [] := by
    rintro rfl
    cases hp
  have hmap : (pieces cs).map terminated = (pieces cs).map id := by
    rw [← pieces_terminated hne, terminated_of_isWhole h hne, List.map_id]
  exact List.map_inj_left.mp hmap p hp

theorem line_infix_terminated_iff {w : List Char} (hw : '\n' ∉ w) (hne : w ≠ [])
    {cs : List Char} :
    w ++ ['\n'] <:+: terminated cs ↔ ∃ p ∈ pieces cs, w ++ ['\n'] <:+ terminated p := by
  rw [line_infix_iff hw]
  by_cases hcs : cs = []
  · subst hcs
    have hshort : ¬w ++ ['\n'] <:+ ['\n'] := by
      intro hsuffix
      have hlength := hsuffix.length_le
      have hpos := List.length_pos_iff.mpr hne
      simp only [List.length_append, List.length_singleton] at hlength
      omega
    have hlast : terminated [] = ['\n'] := by decide
    simp [hlast, consPiece, hshort]
  · rw [pieces_terminated hcs]
    constructor
    · rintro ⟨q, hq, hsuffix⟩
      obtain ⟨p, hp, rfl⟩ := List.mem_map.mp hq
      exact ⟨p, hp, hsuffix⟩
    · rintro ⟨p, hp, hsuffix⟩
      exact ⟨terminated p, List.mem_map_of_mem hp, hsuffix⟩

theorem textAt_add_of_ne (a : Annotations) {line n : UInt32} (directive : String) (h : n ≠ line) :
    (a.add line directive).textAt n = a.textAt n :=
  (textAt_add a line directive n).resolve_right fun hmore => h hmore.1

-- At its own line a directive goes behind the text, unless it is empty or stands there already.
theorem textAt_add_self (a : Annotations) (line : UInt32) (directive : String) :
    ((a.add line directive).textAt line).toList =
      (extend? (a.textAt line).toList directive.toList).getD (a.textAt line).toList := by
  rw [add, add?]
  cases extend? (a.textAt line).toList directive.toList with
  | none => rfl
  | some more => simp [textAt_insert]

end Annotations

end LoopPragma
