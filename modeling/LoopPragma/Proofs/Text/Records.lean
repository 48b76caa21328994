import Mathlib.Data.List.Induction
import Mathlib.Data.List.TakeWhile
import Mathlib.Data.Nat.Digits.Defs
import LoopPragma.Text.Blank
import LoopPragma.Text.Decimal
import LoopPragma.Proofs.Annotations.Pieces

namespace LoopPragma

namespace Text

theorem induction_records {motive : List Char → Prop} (last : ∀ w, '\n' ∉ w → motive w)
    (line : ∀ w rest, '\n' ∉ w → motive rest → motive (w ++ '\n' :: rest)) (cs : List Char) :
    motive cs := by
  induction hlength : cs.length using Nat.strongRecOn generalizing cs with
  | ind length ih =>
      by_cases hnewline : '\n' ∈ cs
      · obtain ⟨w, rest, rfl, hw⟩ := List.eq_append_cons_of_mem hnewline
        have hshorter : rest.length < length := by
          rw [← hlength, List.length_append, List.length_cons]
          omega
        exact line w rest hw (ih rest.length hshorter rest rfl)
      · exact last cs hnewline

theorem pieces_of_notMem {w : List Char} (hw : '\n' ∉ w) :
    pieces w = if w = [] then [] else [w] := by
  induction w with
  | nil => rfl
  | cons c w ih =>
      rw [List.mem_cons, not_or] at hw
      have hc : c ≠ '\n' := Ne.symm hw.1
      rw [pieces_cons, ih hw.2]
      cases w <;> simp [consPiece, hc]

-- A reader that sees no newline at the end of a record, and nothing in an empty one, reads the
-- records as it reads the pieces.
theorem filterMap_splitOn {α : Type} {read : List Char → Option α} (hempty : read [] = none)
    (hend : ∀ r, read (r ++ ['\n']) = read r) (cs : List Char) :
    (cs.splitOn '\n').filterMap read = (pieces cs).filterMap read := by
  induction cs using induction_records with
  | last w hw =>
      rw [List.splitOn_eq_singleton hw, pieces_of_notMem hw]
      by_cases hnil : w = []
      · simp [hnil, hempty]
      · rw [if_neg hnil]
  | line w rest hw ih =>
      have hline : pieces (w ++ '\n' :: rest) = (w ++ ['\n']) :: pieces rest := pieces_line hw rest
      rw [List.splitOn_append_cons_self_of_not_mem hw, hline, List.filterMap_cons,
        List.filterMap_cons, hend, ih]

theorem exists_blanks_trim (cs : List Char) :
    ∃ front back, cs = front ++ trim cs ++ back ∧ (∀ c ∈ front, isBlank c) ∧
      ∀ c ∈ back, isBlank c := by
  let middle := cs.dropWhile isBlank
  refine ⟨cs.takeWhile isBlank, (middle.reverse.takeWhile isBlank).reverse, ?_,
    fun c hc => List.mem_takeWhile_imp hc,
    fun c hc => List.mem_takeWhile_imp (List.mem_reverse.mp hc)⟩
  have hmiddle : trim cs ++ (middle.reverse.takeWhile isBlank).reverse = middle := by
    rw [trim, ← List.reverse_append, List.takeWhile_append_dropWhile, List.reverse_reverse]
  rw [List.append_assoc, hmiddle, List.takeWhile_append_dropWhile]

theorem trim_append_blanks (cs : List Char) {back : List Char} (hback : ∀ c ∈ back, isBlank c) :
    trim (cs ++ back) = trim cs := by
  have hdrop : back.dropWhile isBlank = [] := List.dropWhile_eq_nil_iff.mpr hback
  have hreverse : ∀ c ∈ back.reverse, isBlank c := fun c hc => hback c (List.mem_reverse.mp hc)
  rw [trim, List.dropWhile_append]
  by_cases hall : (cs.dropWhile isBlank).isEmpty
  · rw [if_pos hall, hdrop, trim, List.isEmpty_iff.mp hall]
  · rw [if_neg hall, List.reverse_append, List.dropWhile_append_of_pos hreverse, trim]

theorem trim_blanks_append {front : List Char} (hfront : ∀ c ∈ front, isBlank c)
    (cs : List Char) : trim (front ++ cs) = trim cs := by
  rw [trim, List.dropWhile_append_of_pos hfront, trim]

theorem trim_of_forall_not_blank {cs : List Char} (h : ∀ c ∈ cs, isBlank c = false) :
    trim cs = cs := by
  have hdrop (ds : List Char) (hds : ∀ c ∈ ds, isBlank c = false) : ds.dropWhile isBlank = ds := by
    cases ds with
    | nil => rfl
    | cons c ds => rw [List.dropWhile_cons_of_neg (by simp [hds c List.mem_cons_self])]
  rw [trim, hdrop cs h, hdrop cs.reverse fun c hc => h c (List.mem_reverse.mp hc),
    List.reverse_reverse]

theorem trim_withoutEnd (piece : List Char) : trim (withoutEnd piece) = trim piece := by
  have hend : ∃ back, piece = withoutEnd piece ++ back ∧ ∀ c ∈ back, isBlank c := by
    unfold withoutEnd
    split
    · next r hr =>
        exact ⟨['\r', '\n'], by simpa using congrArg List.reverse hr,
          List.forall_mem_cons.mpr ⟨rfl, List.forall_mem_singleton.mpr rfl⟩⟩
    · next r _ hr =>
        exact ⟨['\n'], by simpa using congrArg List.reverse hr, List.forall_mem_singleton.mpr rfl⟩
    · exact ⟨[], by simp, by simp⟩
  obtain ⟨back, hpiece, hback⟩ := hend
  conv_rhs => rw [hpiece, trim_append_blanks _ hback]

theorem isBlank_of_isDigit {c : Char} (h : c.isDigit) : isBlank c = false := by
  have hlow : 48 ≤ c.toNat := by
    simp only [Char.isDigit, Bool.and_eq_true, decide_eq_true_eq] at h
    exact UInt32.le_iff_toNat_le.mp h.1
  have hhigh : c.toNat ≤ 57 := by
    simp only [Char.isDigit, Bool.and_eq_true, decide_eq_true_eq] at h
    exact UInt32.le_iff_toNat_le.mp h.2
  simp [isBlank, blankRanges]
  omega

end Text

namespace Decimal

-- Digits of a number by their places, with a plus sign in front or without.
def IsNumeral (cs : List Char) (n : Nat) : Prop :=
  ∃ sign digits, cs = sign ++ digits ∧ (sign = [] ∨ sign = ['+']) ∧ digits ≠ [] ∧
    (∀ d ∈ digits, d.isDigit) ∧ Nat.ofDigits 10 (digits.reverse.map digitValue) = n

-- Read from the left, every digit shifts those before it by one place.
theorem value_eq_ofDigits (digits : List Char) :
    value digits = Nat.ofDigits 10 (digits.reverse.map digitValue) := by
  induction digits using List.reverseRecOn with
  | nil => rfl
  | append_singleton digits d ih =>
      rw [List.reverse_append, List.reverse_singleton, List.singleton_append, List.map_cons,
        Nat.ofDigits_cons, ← ih, value, List.foldl_append, List.foldl_cons, List.foldl_nil,
        Nat.add_comm]
      rfl

theorem read?_eq_some_iff {cs : List Char} {n : Nat} :
    read? cs = some n ↔ cs ≠ [] ∧ (∀ d ∈ cs, d.isDigit) ∧
      Nat.ofDigits 10 (cs.reverse.map digitValue) = n := by
  rw [read?, ← value_eq_ofDigits]
  simp [List.all_eq_true, and_assoc]

theorem readSigned?_eq_some_iff {cs : List Char} {n : Nat} :
    readSigned? cs = some n ↔ IsNumeral cs n := by
  constructor
  · intro h
    unfold readSigned? at h
    split at h
    · next digits =>
        exact ⟨['+'], digits, rfl, Or.inr rfl, read?_eq_some_iff.mp h⟩
    · exact ⟨[], cs, rfl, Or.inl rfl, read?_eq_some_iff.mp h⟩
  · rintro ⟨sign, digits, rfl, rfl | rfl, hread⟩
    · unfold readSigned?
      split
      · next rest heq =>
          -- No digit is a plus sign.
          have hmem : '+' ∈ [] ++ digits := heq ▸ List.mem_cons_self
          exact absurd (hread.2.1 '+' hmem) (by decide)
      · exact read?_eq_some_iff.mpr hread
    · exact read?_eq_some_iff.mpr hread

theorem IsNumeral.not_blank {cs : List Char} {n : Nat} (h : IsNumeral cs n) :
    ∀ c ∈ cs, Text.isBlank c = false := by
  obtain ⟨sign, digits, rfl, hsign, -, hdigits, -⟩ := h
  intro c hc
  rcases List.mem_append.mp hc with hc | hc
  · rcases hsign with rfl | rfl
    · cases hc
    · rw [List.mem_singleton.mp hc]
      decide
  · exact Text.isBlank_of_isDigit (hdigits c hc)

theorem toWord?_eq_some_iff {n : Nat} {word : UInt32} :
    toWord? n = some word ↔ n = word.toNat := by
  rw [toWord?]
  constructor
  · intro h
    split at h
    · next hlt =>
        rw [← Option.some.inj h, UInt32.toNat_ofNat_of_lt' hlt]
    · cases h
  · rintro rfl
    rw [if_pos word.toNat_lt, UInt32.ofNat_toNat]

end Decimal

end LoopPragma
