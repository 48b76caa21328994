import Mathlib.Data.Prod.Basic
import Std.Data.String.ToNat
import LoopPragma.Annotations.Listing
import LoopPragma.Proofs.Annotations.Grouping

namespace LoopPragma

namespace Text

theorem withoutEnd_line {w : List Char} (hw : '\r' ∉ w) : withoutEnd (w ++ ['\n']) = w := by
  rcases List.eq_nil_or_concat w with rfl | ⟨v, c, rfl⟩
  · rfl
  · have hc : c ≠ '\r' := by
      rintro rfl
      simp at hw
    simp [withoutEnd, hc]

theorem map_newline_lines {cs : List Char} (hwhole : IsWhole cs) (hreturn : '\r' ∉ cs) :
    (lines cs).map (· ++ ['\n']) = pieces cs := by
  rw [lines, List.map_map]
  conv_rhs => rw [← List.map_id (pieces cs)]
  refine List.map_congr_left fun p hp => ?_
  obtain ⟨w, -, rfl⟩ := Annotations.isLine_of_mem_pieces hwhole hp
  have hw : '\r' ∉ w := fun hmem =>
    hreturn ((infix_of_mem_pieces hp).subset (List.mem_append_left _ hmem))
  rw [Function.comp_apply, withoutEnd_line hw, id]

theorem flatMap_newline_lines {cs : List Char} (hwhole : IsWhole cs) (hreturn : '\r' ∉ cs) :
    (lines cs).flatMap (· ++ ['\n']) = cs := by
  rw [List.flatMap_def, map_newline_lines hwhole hreturn, flatten_pieces]

theorem newline_notMem_of_mem_lines {cs l : List Char} (hwhole : IsWhole cs)
    (hreturn : '\r' ∉ cs) (hl : l ∈ lines cs) : '\n' ∉ l := by
  have hpiece : l ++ ['\n'] ∈ pieces cs := by
    rw [← map_newline_lines hwhole hreturn]
    exact List.mem_map_of_mem hl
  obtain ⟨w, hw, heq⟩ := Annotations.isLine_of_mem_pieces hwhole hpiece
  exact List.append_cancel_right heq ▸ hw

-- Lines put one after the other are cut where one of them ends.
theorem pieces_flatten {ls : List (List Char)} (h : ∀ l ∈ ls, IsLine l) :
    pieces ls.flatten = ls := by
  induction ls with
  | nil => rfl
  | cons l ls ih =>
      have hl : IsLine l := h l List.mem_cons_self
      rw [List.flatten_cons, pieces_append hl.isWhole, hl.pieces_eq,
        ih fun k hk => h k (List.mem_cons_of_mem _ hk), List.singleton_append]

end Text

section Blocks

variable {α β : Type} {head : α → β} {body : α → List β} (inside : β → Bool)

theorem takeWhile_body (hhead : ∀ x, inside (head x) = false) (hbody : ∀ x, ∀ b ∈ body x, inside b)
    (x : α) (xs : List α) :
    (body x ++ xs.flatMap fun x => head x :: body x).takeWhile inside = body x := by
  rw [List.takeWhile_append_of_pos (hbody x)]
  cases xs with
  | nil => simp
  | cons y ys => simp [hhead y]

-- Blocks put one after the other are told apart if what stands in a body is never a head.
theorem eq_of_flatMap_blocks_eq (hhead : ∀ x, inside (head x) = false)
    (hbody : ∀ x, ∀ b ∈ body x, inside b) {xs ys : List α}
    (h : (xs.flatMap fun x => head x :: body x) = ys.flatMap fun x => head x :: body x) :
    xs.map (fun x => (head x, body x)) = ys.map fun x => (head x, body x) := by
  induction xs generalizing ys with
  | nil =>
      cases ys with
      | nil => rfl
      | cons y ys => simp at h
  | cons x xs ih =>
      cases ys with
      | nil => simp at h
      | cons y ys =>
          rw [List.flatMap_cons, List.flatMap_cons, List.cons_append, List.cons_append,
            List.cons.injEq] at h
          obtain ⟨hheads, hrest⟩ := h
          have hbodies : body x = body y := by
            have htake := congrArg (List.takeWhile inside) hrest
            rwa [takeWhile_body inside hhead hbody, takeWhile_body inside hhead hbody] at htake
          rw [hbodies] at hrest
          rw [List.map_cons, List.map_cons, hheads, hbodies, ih (List.append_cancel_left hrest)]

end Blocks

namespace Annotations

open Text

def headLine (line : UInt32) : List Char := (toString line.toNat).toList ++ [':', '\n']

def bodyLine (l : List Char) : List Char := [' ', ' ', ' ', ' '] ++ l ++ ['\n']

-- A line that begins with a blank belongs to a text, whatever it looks like behind the blanks.
def isBodyLine (l : List Char) : Bool := l.head? = some ' '

def bodyLines (text : String) : List (List Char) := (lines text.toList).map bodyLine

theorem listing_eq (a : Annotations) :
    a.listing.toList =
      (a.toList.flatMap fun entry => headLine entry.1 :: bodyLines entry.2).flatten := by
  rw [listing, String.toList_ofList, List.flatMap_def, List.flatMap_def, List.flatten_flatten,
    List.map_map]
  rfl

theorem isDigit_of_mem_toString {n : Nat} {c : Char} (h : c ∈ (toString n).toList) :
    c.isDigit := by
  rw [Nat.toString_eq_repr, Nat.toList_repr] at h
  exact Nat.isDigit_of_mem_toDigits (by decide) (by decide) h

theorem isLine_headLine (line : UInt32) : IsLine (headLine line) := by
  refine ⟨(toString line.toNat).toList ++ [':'], ?_, by simp [headLine]⟩
  rw [List.mem_append, not_or]
  refine ⟨fun hmem => ?_, by decide⟩
  have hdigit := isDigit_of_mem_toString hmem
  revert hdigit
  decide

theorem isBodyLine_headLine (line : UInt32) : isBodyLine (headLine line) = false := by
  have hne : (toString line.toNat).toList ≠ [] := by
    rw [Nat.toString_eq_repr, Nat.toList_repr]
    exact Nat.toDigits_ne_nil
  obtain ⟨c, cs, hcs⟩ := List.exists_cons_of_ne_nil hne
  have hdigit : c.isDigit := isDigit_of_mem_toString (hcs ▸ List.mem_cons_self)
  have hc : c ≠ ' ' := by
    rintro rfl
    revert hdigit
    decide
  rw [isBodyLine, headLine, hcs, List.cons_append, List.head?_cons]
  simpa using hc

theorem headLine_injective : Function.Injective headLine := by
  intro m n h
  have hdigits := String.toList_inj.mp (List.append_cancel_right h)
  exact UInt32.toNat_inj.mp (Nat.repr_injective hdigits)

theorem isBodyLine_of_mem_bodyLines {text : String} {l : List Char} (h : l ∈ bodyLines text) :
    isBodyLine l := by
  obtain ⟨k, -, rfl⟩ := List.mem_map.mp h
  rfl

structure HasPlainTexts (a : Annotations) : Prop where
  whole : a.HasWholeTexts
  noReturn : ∀ n, '\r' ∉ (a.textAt n).toList

theorem hasPlainTexts_iff {a : Annotations} : a.HasPlainTexts ↔
    ∀ entry ∈ a.toList, IsWhole entry.2.toList ∧ '\r' ∉ entry.2.toList := by
  constructor
  · intro h entry hentry
    rw [← textAt_of_mem_toList hentry]
    exact ⟨h.whole entry.1, h.noReturn entry.1⟩
  · intro h
    refine ⟨hasWholeTexts_iff.mpr fun entry hentry => (h entry hentry).1, fun n => ?_⟩
    rw [textAt]
    cases hget : a.get? n with
    | none => exact List.not_mem_nil
    | some text =>
        exact (h (n, text) (Std.ExtTreeMap.mem_toList_iff_getElem?_eq_some.mpr hget)).2

section Plain

variable {a : Annotations} (h : a.HasPlainTexts) {entry : UInt32 × String}
  (hentry : entry ∈ a.toList)

include h hentry

theorem HasPlainTexts.isLine_bodyLine {l : List Char} (hl : l ∈ bodyLines entry.2) :
    IsLine l := by
  obtain ⟨k, hk, rfl⟩ := List.mem_map.mp hl
  obtain ⟨hwhole, hreturn⟩ := hasPlainTexts_iff.mp h entry hentry
  have hnewline : '\n' ∉ k := newline_notMem_of_mem_lines hwhole hreturn hk
  exact ⟨[' ', ' ', ' ', ' '] ++ k, by simpa using hnewline, rfl⟩

theorem HasPlainTexts.drop_bodyLines :
    String.ofList ((bodyLines entry.2).flatMap (List.drop 4)) = entry.2 := by
  have hblanks : (bodyLines entry.2).flatMap (List.drop 4) =
      (lines entry.2.toList).flatMap (· ++ ['\n']) := by
    rw [bodyLines, List.flatMap_map]
    rfl
  obtain ⟨hwhole, hreturn⟩ := hasPlainTexts_iff.mp h entry hentry
  rw [hblanks, flatMap_newline_lines hwhole hreturn, String.ofList_toList]

end Plain

theorem HasPlainTexts.pieces_listing {a : Annotations} (h : a.HasPlainTexts) :
    pieces a.listing.toList =
      a.toList.flatMap fun entry => headLine entry.1 :: bodyLines entry.2 := by
  rw [listing_eq]
  refine pieces_flatten fun l hl => ?_
  obtain ⟨entry, hentry, hl⟩ := List.mem_flatMap.mp hl
  rcases List.mem_cons.mp hl with rfl | hl
  · exact isLine_headLine entry.1
  · exact h.isLine_bodyLine hentry hl

theorem HasPlainTexts.map_read {a : Annotations} (h : a.HasPlainTexts) :
    (a.toList.map fun entry => (headLine entry.1, bodyLines entry.2)).map
        (Prod.map id fun body => String.ofList (body.flatMap (List.drop 4))) =
      a.toList.map (Prod.map headLine id) := by
  rw [List.map_map]
  refine List.map_congr_left fun entry hentry => ?_
  exact congrArg (Prod.mk (headLine entry.1)) (h.drop_bodyLines hentry)

-- Texts of whole lines without carriage returns are all in the listing, each at its line.
theorem eq_of_listing_eq {a b : Annotations} (ha : a.HasPlainTexts) (hb : b.HasPlainTexts)
    (h : a.listing = b.listing) : a = b := by
  have hpieces : (a.toList.flatMap fun entry => headLine entry.1 :: bodyLines entry.2) =
      b.toList.flatMap fun entry => headLine entry.1 :: bodyLines entry.2 := by
    rw [← ha.pieces_listing, ← hb.pieces_listing, h]
  have hblocks := eq_of_flatMap_blocks_eq isBodyLine
    (fun entry : UInt32 × String => isBodyLine_headLine entry.1)
    (fun entry _ hl => isBodyLine_of_mem_bodyLines hl) hpieces
  have hentries : a.toList.map (Prod.map headLine id) = b.toList.map (Prod.map headLine id) := by
    rw [← ha.map_read, ← hb.map_read, hblocks]
  have hinjective : Function.Injective (Prod.map headLine (id : String → String)) :=
    headLine_injective.prodMap Function.injective_id
  have htexts : a.texts = b.texts :=
    Std.ExtTreeMap.toList_inj.mp (List.map_injective_iff.mpr hinjective hentries)
  cases a
  exact congrArg mk htexts

-- Carriage returns at line ends are not listed.
example : (ofList [(7, "x;\r\n")]).listing = (ofList [(7, "x;\n")]).listing := by decide +kernel

-- A text with a blank line and a line like the head of an entry, put there before or after another.
def headLike : Annotations := .ofList [(7, "8:\n\n    x;\n"), (8, "y;\n")]

def headLikeLater : Annotations := ((∅ : Annotations).add 8 "y;").add 7 "8:\n\n    x;"

theorem headLike_listing : headLike.HasPlainTexts ∧ headLikeLater.HasPlainTexts ∧
    headLike.listing = headLikeLater.listing ∧ headLike = headLikeLater := by
  have ha : headLike.HasPlainTexts := hasPlainTexts_iff.mpr (by decide +kernel)
  have hb : headLikeLater.HasPlainTexts := hasPlainTexts_iff.mpr (by decide +kernel)
  have h : headLike.listing = headLikeLater.listing := by decide +kernel
  exact ⟨ha, hb, h, eq_of_listing_eq ha hb h⟩

end Annotations

end LoopPragma
