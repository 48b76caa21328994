import LoopPragma.Proofs.Annotations.Filled
import LoopPragma.Proofs.Annotations.Growth

namespace LoopPragma

namespace Text

variable {old new w : List Char} {x : Char}

-- The text between the occurrences of `old`, and the same text between those of `new`.
def Replaces (old new text result : List Char) : Prop :=
  ∃ (first : List Char) (rest : List (List Char)),
    text = first ++ rest.flatMap (old ++ ·) ∧ result = first ++ rest.flatMap (new ++ ·) ∧
      ∀ part ∈ first :: rest, ¬old <:+: part

theorem replaces_replaceAll (hne : old ≠ []) (new text : List Char) :
    Replaces old new text (replaceAll old new text) := by
  fun_induction replaceAll old new text with
  | case1 => exact ⟨[], [], rfl, rfl, by simpa using hne⟩
  | case2 c cs hfound ih =>
      obtain ⟨first, rest, htext, hresult, hparts⟩ := ih
      refine ⟨[], first :: rest, ?_, ?_, ?_⟩
      · rw [List.nil_append, List.flatMap_cons, List.append_assoc, ← htext]
        exact (List.prefix_iff_eq_append.mp hfound.2).symm
      · rw [List.nil_append, List.flatMap_cons, List.append_assoc, ← hresult]
      · exact List.forall_mem_cons.mpr ⟨by simpa using hne, hparts⟩
  | case3 c cs hnot ih =>
      obtain ⟨first, rest, htext, hresult, hparts⟩ := ih
      obtain ⟨hfirst, hrest⟩ := List.forall_mem_cons.mp hparts
      refine ⟨c :: first, rest, by rw [List.cons_append, ← htext],
        by rw [List.cons_append, ← hresult], List.forall_mem_cons.mpr ⟨?_, hrest⟩⟩
      rw [List.infix_cons_iff]
      rintro (hfront | hpart)
      · have hbegin : c :: first <+: c :: cs := by
          rw [htext, ← List.cons_append]
          exact List.prefix_append _ _
        exact hnot ⟨hne, hfront.trans hbegin⟩
      · exact hfirst hpart

theorem Replaces.eq_nil_iff (hold : old ≠ []) (hnew : new ≠ []) {text result : List Char}
    (h : Replaces old new text result) : result = [] ↔ text = [] := by
  obtain ⟨first, rest, rfl, rfl, -⟩ := h
  simp [hold, hnew]

theorem prefix_of_prefix_append_cons (hx : x ∉ w) {before after : List Char}
    (h : w <+: before ++ x :: after) : w <+: before := by
  rcases List.prefix_or_prefix_of_prefix h (List.prefix_append before _) with h' | ⟨more, rfl⟩
  · exact h'
  · cases more with
    | nil => simp
    | cons y more =>
        have hfront : y = x ∧ more <+: after := by simpa using h
        exact absurd (by simp [hfront.1]) hx

-- What lacks a character occurs on one side of it or on the other.
theorem infix_append_cons_iff (hx : x ∉ w) (hne : w ≠ []) {before after : List Char} :
    w <:+: before ++ x :: after ↔ w <:+: before ∨ w <:+: after := by
  constructor
  · intro h
    induction before with
    | nil =>
        rcases List.infix_cons_iff.mp h with hfront | hpart
        · exact absurd (List.prefix_nil.mp (prefix_of_prefix_append_cons hx hfront)) hne
        · exact Or.inr hpart
    | cons c before ih =>
        rcases List.infix_cons_iff.mp h with hfront | hpart
        · exact Or.inl (prefix_of_prefix_append_cons hx hfront).isInfix
        · exact (ih hpart).imp_left fun h => List.infix_cons_iff.mpr (Or.inr h)
  · rintro (h | h)
    · exact h.trans (List.prefix_append _ _).isInfix
    · exact h.trans ((List.suffix_cons x _).trans (List.suffix_append before _)).isInfix

theorem infix_append_iff_of_notMem (hx : x ∉ w) {cs more : List Char} :
    x :: more <:+: w ++ cs ↔ x :: more <:+: cs := by
  induction w with
  | nil => rfl
  | cons c w ih =>
      rw [List.mem_cons, not_or] at hx
      rw [List.cons_append, List.infix_cons_iff, ih hx.2, List.cons_prefix_cons]
      simp [hx.1]

theorem isInfix_trim (cs : List Char) : trim cs <:+: cs := by
  have hfront := List.dropWhile_suffix (l := cs) isBlank
  have hback := List.dropWhile_suffix (l := (cs.dropWhile isBlank).reverse) isBlank
  rw [← List.reverse_prefix, List.reverse_reverse] at hback
  exact hback.isInfix.trans hfront.isInfix

end Text

namespace Annotations

open Text

variable {a : Annotations} {line n : UInt32} {directive : String}

theorem get?_add_of_ne (directive : String) (h : n ≠ line) :
    (a.add line directive).get? n = a.get? n := by
  rw [add, add?]
  cases extend? (a.textAt line).toList directive.toList with
  | none => rfl
  | some text =>
      have hline : compare line n ≠ .eq := fun heq =>
        h (Std.LawfulEqCmp.eq_of_compare heq).symm
      rw [Option.map_some, Option.getD_some, get?, Std.ExtTreeMap.getElem?_insert, if_neg hline]
      rfl

theorem get?_add_of_none (h : a.get? line = none) :
    (a.add line directive).get? line =
      if directive = "" then none else some (String.ofList (terminated directive.toList)) := by
  have hempty : (a.textAt line).toList = [] := by
    rw [textAt, h]
    rfl
  by_cases hdirective : directive = ""
  · have hidle : a.add? line directive = none :=
      add?_eq_none_iff.mpr (Or.inl (by simp [hdirective]))
    rw [if_pos hdirective, add, hidle, Option.getD_none, h]
  · have hnew : ¬(directive.toList = [] ∨ occursIn (terminated directive.toList) []) := by
      rw [occursIn_iff, List.infix_nil, String.toList_eq_nil_iff]
      exact not_or.mpr ⟨hdirective, terminated_ne_nil _⟩
    rw [if_neg hdirective, add, add?, hempty, extend?, if_neg hnew, List.nil_append,
      Option.map_some, Option.getD_some, get?, Std.ExtTreeMap.getElem?_insert_self]

theorem get?_addAll_of_notMem {marks : List (UInt32 × String)} (h : n ∉ marks.map Prod.fst) :
    (a.addAll marks).get? n = a.get? n := by
  induction marks generalizing a with
  | nil => rfl
  | cons mark marks ih =>
      rw [List.map_cons, List.mem_cons, not_or] at h
      rw [addAll, List.foldl_cons]
      exact (ih h.2).trans (get?_add_of_ne mark.2 h.1)

theorem get?_addAll_of_mem {marks : List (UInt32 × String)} (hnodup : (marks.map Prod.fst).Nodup)
    (hmark : (line, directive) ∈ marks) (h : a.get? line = none) :
    (a.addAll marks).get? line =
      if directive = "" then none else some (String.ofList (terminated directive.toList)) := by
  obtain ⟨before, later, rfl⟩ := List.append_of_mem hmark
  rw [List.map_append, List.map_cons, List.nodup_append] at hnodup
  obtain ⟨-, hlater, hacross⟩ := hnodup
  have hbefore : line ∉ before.map Prod.fst := fun hmem =>
    hacross line hmem line List.mem_cons_self rfl
  have hstart : (a.addAll before).get? line = none := (get?_addAll_of_notMem hbefore).trans h
  rw [addAll_append, addAll, List.foldl_cons]
  exact (get?_addAll_of_notMem (List.nodup_cons.mp hlater).1).trans (get?_add_of_none hstart)

end Annotations

namespace ExtractionFact

open Annotations Text

def IsFilled (cs : List Char) : Prop := ¬placeholder <:+: cs

theorem IsFilled.of_part {cs part : List Char} (h : IsFilled cs) (hpart : part <:+: cs) :
    IsFilled part :=
  fun hfound => h (hfound.trans hpart)

theorem isFilled_append_cons_iff {x : Char} (hx : x ∉ placeholder) {before after : List Char} :
    IsFilled (before ++ x :: after) ↔ IsFilled before ∧ IsFilled after := by
  rw [IsFilled, infix_append_cons_iff hx (by decide), not_or]
  rfl

theorem isFilled_append_iff_of_notMem {w cs : List Char} (hw : '{' ∉ w) :
    IsFilled (w ++ cs) ↔ IsFilled cs :=
  not_congr (infix_append_iff_of_notMem hw)

theorem isFilled_of_notMem {cs : List Char} (h : '{' ∉ cs) : IsFilled cs :=
  fun hfound => h (hfound.subset (by decide))

theorem isFilled_nil : IsFilled [] := isFilled_of_notMem List.not_mem_nil

theorem isFilled_append_of_endsLine {line cs : List Char} (hend : endsLine line)
    (hline : IsFilled line) (hcs : IsFilled cs) : IsFilled (line ++ cs) := by
  have hlast : line.getLast? = some '\n' := by simpa [endsLine] using hend
  obtain ⟨w, rfl⟩ := List.getLast?_eq_some_iff.mp hlast
  rw [List.append_assoc, List.singleton_append, isFilled_append_cons_iff (by decide)]
  exact ⟨hline.of_part (List.prefix_append _ _).isInfix, hcs⟩

theorem isFilled_flatten {lines : List (List Char)}
    (h : ∀ line ∈ lines, endsLine line ∧ IsFilled line) : IsFilled lines.flatten := by
  induction lines with
  | nil => exact isFilled_nil
  | cons line lines ih =>
      obtain ⟨⟨hend, hline⟩, hlines⟩ := List.forall_mem_cons.mp h
      exact isFilled_append_of_endsLine hend hline (ih hlines)

theorem isFilled_terminated {cs : List Char} (h : IsFilled cs) : IsFilled (terminated cs) := by
  rw [terminated]
  split
  · exact h
  · rw [isFilled_append_cons_iff (by decide)]
    exact ⟨h, isFilled_nil⟩

-- The first letter of a name is not in the placeholder, so none begins in front of the name and
-- ends behind it.
theorem isFilled_fill (k : UInt32) (text : String) :
    IsFilled (fill (Place.computationName k) text).toList := by
  obtain ⟨first, rest, -, hresult, hparts⟩ :=
    replaces_replaceAll (by decide : placeholder ≠ []) (Place.computationName k).toList text.toList
  obtain ⟨name, hname⟩ : ∃ name, (Place.computationName k).toList = 'A' :: name :=
    ⟨_, by rw [Place.computationName, String.toList_append]; rfl⟩
  have hbrace : '{' ∉ name := fun hmem =>
    Place.notMem_computationName (by decide) k (hname ▸ List.mem_cons_of_mem 'A' hmem)
  rw [fill, String.toList_ofList, hresult, hname]
  clear hresult
  induction rest generalizing first with
  | nil =>
      rw [List.flatMap_nil, List.append_nil]
      exact hparts first List.mem_cons_self
  | cons part rest ih =>
      obtain ⟨hfirst, hrest⟩ := List.forall_mem_cons.mp hparts
      rw [List.flatMap_cons, List.append_assoc, List.cons_append,
        isFilled_append_cons_iff (by decide), isFilled_append_iff_of_notMem hbrace]
      exact ⟨hfirst, ih part hrest⟩

-- What an extraction says under a name: the texts of the fact, with the name wherever the
-- placeholder stands, each as whole lines at its own source line.
structure Fills (fact : ExtractionFact) (name : String) (extraction : Extraction) : Prop where
  restrict : extraction.restrict = fact.restrict
  guard : Replaces placeholder name.toList fact.guard.toList extraction.guard.toList
  comment : ∀ line text, fact.comments[line]? = some text → text ≠ "" →
    ∃ filled, Replaces placeholder name.toList text.toList filled ∧
      extraction.comments.get? line = some (String.ofList (terminated filled))
  only : ∀ line, (extraction.comments.get? line).isSome →
    ∃ text, fact.comments[line]? = some text ∧ text ≠ ""

theorem replaces_fill (name text : String) :
    Replaces placeholder name.toList text.toList (fill name text).toList := by
  rw [fill, String.toList_ofList]
  exact replaces_replaceAll (by decide) _ _

theorem fill_eq_empty_iff {name : String} (hname : name ≠ "") {text : String} :
    fill name text = "" ↔ text = "" := by
  have hletters : name.toList ≠ [] := fun h => hname (String.toList_eq_nil_iff.mp h)
  rw [← String.toList_eq_nil_iff, (replaces_fill name text).eq_nil_iff (by decide) hletters,
    String.toList_eq_nil_iff]

theorem get?_comments_instantiate (fact : ExtractionFact) (name : String) (line : UInt32) :
    (fact.instantiate name).comments.get? line = (fact.comments[line]?).bind fun text =>
      if fill name text = "" then none
      else some (String.ofList (terminated (fill name text).toList)) := by
  let marks := fact.comments.toList.map fun entry => (entry.1, fill name entry.2)
  have hcomments : (fact.instantiate name).comments = (∅ : Annotations).addAll marks := by
    rw [instantiate, addAll, List.foldl_map]
  have hkeys : marks.map Prod.fst = fact.comments.keys := by
    rw [List.map_map, ← Std.ExtTreeMap.map_fst_toList_eq_keys]
    rfl
  have hnone : (∅ : Annotations).get? line = none := rfl
  rw [hcomments]
  cases htext : fact.comments[line]? with
  | none =>
      have hnew : line ∉ marks.map Prod.fst := by
        rw [hkeys, Std.ExtTreeMap.mem_keys, Std.ExtTreeMap.mem_iff_isSome_getElem?, htext]
        simp
      rw [get?_addAll_of_notMem hnew, hnone, Option.bind_none]
  | some text =>
      have hmark : (line, fill name text) ∈ marks :=
        List.mem_map.mpr
          ⟨(line, text), Std.ExtTreeMap.mem_toList_iff_getElem?_eq_some.mpr htext, rfl⟩
      have hnodup : (marks.map Prod.fst).Nodup := hkeys ▸ Std.ExtTreeMap.nodup_keys
      rw [get?_addAll_of_mem hnodup hmark hnone, Option.bind_some]

theorem fills_instantiate (fact : ExtractionFact) {name : String} (hname : name ≠ "") :
    fact.Fills name (fact.instantiate name) where
  restrict := rfl
  guard := replaces_fill name fact.guard
  comment line text htext hne := by
    refine ⟨_, replaces_fill name text, ?_⟩
    rw [get?_comments_instantiate, htext, Option.bind_some,
      if_neg (mt (fill_eq_empty_iff hname).mp hne)]
  only line hsome := by
    rw [get?_comments_instantiate] at hsome
    obtain ⟨lines, hlines⟩ := Option.isSome_iff_exists.mp hsome
    obtain ⟨text, htext, hfilled⟩ := Option.bind_eq_some_iff.mp hlines
    refine ⟨text, htext, fun hempty => ?_⟩
    rw [if_pos ((fill_eq_empty_iff hname).mpr hempty)] at hfilled
    cases hfilled

theorem isFilled_comments (fact : ExtractionFact) (k : UInt32) (line : UInt32) :
    IsFilled ((fact.instantiate (Place.computationName k)).comments.textAt line).toList := by
  rw [textAt, get?_comments_instantiate]
  cases fact.comments[line]? with
  | none => exact isFilled_nil
  | some text =>
      rw [Option.bind_some]
      by_cases hempty : fill (Place.computationName k) text = ""
      · rw [if_pos hempty]
        exact isFilled_nil
      · rw [if_neg hempty, Option.getD_some, String.toList_ofList]
        exact isFilled_terminated (isFilled_fill k text)

theorem isFilled_loopDirective (family : Family) {guard : String} (h : IsFilled guard.toList) :
    IsFilled (family.loopDirective guard).toList := by
  have hpragma : '{' ∉ family.loopPragma.toList := by cases family <;> decide
  have hblank : '{' ∉ " ".toList := by decide
  have hnewline : "\n".toList = ['\n'] := rfl
  have hguard : (String.ofList (trim guard.toList)).toList = trim guard.toList :=
    String.toList_ofList
  unfold Family.loopDirective
  dsimp only
  split
  · rw [String.toList_append, isFilled_append_iff_of_notMem hpragma]
    exact isFilled_of_notMem (by decide)
  · rw [String.toList_append, String.toList_append, String.toList_append, List.append_assoc,
      List.append_assoc, isFilled_append_iff_of_notMem hpragma,
      isFilled_append_iff_of_notMem hblank, hguard, hnewline,
      isFilled_append_cons_iff (by decide)]
    exact ⟨h.of_part (isInfix_trim _), isFilled_nil⟩

theorem isFilled_kernelDirective {family : Family} {restriction : Option String}
    {directive : String} (hname : ∀ name, restriction = some name → '{' ∉ name.toList)
    (h : family.kernelDirective? restriction = some directive) : IsFilled directive.toList := by
  unfold Family.kernelDirective? at h
  split at h
  · cases restriction with
    | none =>
        obtain rfl := Option.some.inj h
        exact isFilled_of_notMem (by decide)
    | some name =>
        obtain rfl := Option.some.inj h
        have hletters := hname name rfl
        refine isFilled_of_notMem ?_
        simp only [overlapFlag, String.toList_append, List.mem_append, not_or]
        exact ⟨⟨by decide, by decide, hletters⟩, by decide⟩
  · cases h

end ExtractionFact

end LoopPragma
