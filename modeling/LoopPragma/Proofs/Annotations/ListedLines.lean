import LoopPragma.LineList
import LoopPragma.Proofs.Annotations.Distinct
import LoopPragma.Proofs.Annotations.Placeholders
import LoopPragma.Proofs.Text.Records

namespace LoopPragma

namespace Annotations

open Text

theorem add_of_get?_eq {a : Annotations} {line : UInt32} {directive : String}
    (hline : IsLine directive.toList) (h : a.get? line = some directive) :
    a.add line directive = a := by
  have htext : a.textAt line = directive := by rw [textAt, h, Option.getD_some]
  have hterminated := terminated_of_isWhole hline.isWhole hline.ne_nil
  have hidle : a.IsIdle line directive :=
    .inr (by simp only [hterminated, htext, List.infix_rfl])
  rw [add, add?_eq_none_iff.mpr hidle, Option.getD_none]

theorem get?_foldl_add {directive : String} (hline : IsLine directive.toList)
    (lines : List UInt32) (n : UInt32) :
    (lines.foldl (fun a line => a.add line directive) (∅ : Annotations)).get? n =
      if n ∈ lines then some directive else none := by
  induction lines using List.reverseRecOn with
  | nil => rfl
  | append_singleton lines line ih =>
      rw [List.foldl_append, List.foldl_cons, List.foldl_nil]
      by_cases hn : n = line
      · subst hn
        rw [if_pos (List.mem_append_right lines List.mem_cons_self)]
        by_cases hmem : n ∈ lines
        · rw [if_pos hmem] at ih
          rw [add_of_get?_eq hline ih, ih]
        · rw [if_neg hmem] at ih
          have hne : directive ≠ "" := by
            rintro rfl
            exact hline.ne_nil rfl
          rw [get?_add_of_none ih, if_neg hne,
            terminated_of_isWhole hline.isWhole hline.ne_nil, String.ofList_toList]
      · have hmem : n ∈ lines ++ [line] ↔ n ∈ lines := by simp [hn]
        rw [get?_add_of_ne directive hn, ih, if_congr hmem rfl rfl]

end Annotations

namespace LineList

open Text

-- A record that holds a numeral of `n` and, at its ends, blanks.
def Names (record : List Char) (n : Nat) : Prop :=
  ∃ front numeral back, record = front ++ numeral ++ back ∧ (∀ c ∈ front, isBlank c) ∧
    (∀ c ∈ back, isBlank c) ∧ Decimal.IsNumeral numeral n

def Lists (text : String) (n : Nat) : Prop :=
  ∃ record ∈ text.toList.splitOn '\n', Names record n

theorem names_iff {record : List Char} {n : Nat} :
    Names record n ↔ Decimal.IsNumeral (trim record) n := by
  constructor
  · rintro ⟨front, numeral, back, rfl, hfront, hback, hnumeral⟩
    rw [trim_append_blanks _ hback, trim_blanks_append hfront,
      trim_of_forall_not_blank hnumeral.not_blank]
    exact hnumeral
  · intro h
    obtain ⟨front, back, hrecord, hfront, hback⟩ := exists_blanks_trim record
    exact ⟨front, trim record, back, hrecord, hfront, hback, h⟩

theorem recordLine?_eq_some_iff {record : List Char} {line : UInt32} :
    recordLine? record = some line ↔ line ≠ 0 ∧ Names record line.toNat := by
  have hread : recordLine? record = some line ↔
      ∃ n, Decimal.readSigned? (trim record) = some n ∧
        ∃ word, Decimal.toWord? n = some word ∧ word ≠ 0 ∧ word = line := by
    simp [recordLine?, Option.bind_eq_some_iff]
  rw [hread, names_iff]
  constructor
  · rintro ⟨n, hn, word, hword, hzero, rfl⟩
    rw [← Decimal.toWord?_eq_some_iff.mp hword]
    exact ⟨hzero, Decimal.readSigned?_eq_some_iff.mp hn⟩
  · rintro ⟨hzero, hnumeral⟩
    exact ⟨line.toNat, Decimal.readSigned?_eq_some_iff.mpr hnumeral, line,
      Decimal.toWord?_eq_some_iff.mpr rfl, hzero, rfl⟩

theorem parallelLines_eq (text : String) :
    parallelLines text = (text.toList.splitOn '\n').filterMap recordLine? := by
  have hnewline : ∀ c ∈ ['\n'], isBlank c := List.forall_mem_singleton.mpr rfl
  have hend (r : List Char) : recordLine? (r ++ ['\n']) = recordLine? r := by
    rw [recordLine?, trim_append_blanks r hnewline, recordLine?]
  have hlines : recordLine? ∘ withoutEnd = recordLine? := by
    funext piece
    rw [Function.comp_apply, recordLine?, trim_withoutEnd, recordLine?]
  rw [filterMap_splitOn rfl hend, parallelLines, lines, List.filterMap_map, hlines]

theorem mem_parallelLines_iff {text : String} {line : UInt32} :
    line ∈ parallelLines text ↔ line ≠ 0 ∧ Lists text line.toNat := by
  simp only [parallelLines_eq, List.mem_filterMap, recordLine?_eq_some_iff, Lists]
  constructor
  · rintro ⟨record, hrecord, hzero, hnames⟩
    exact ⟨hzero, record, hrecord, hnames⟩
  · rintro ⟨hzero, record, hrecord, hnames⟩
    exact ⟨record, hrecord, hzero, hnames⟩

theorem exists_mem_parallelLines_iff (text : String) (n : Nat) :
    (∃ line ∈ parallelLines text, line.toNat = n) ↔ 1 ≤ n ∧ n ≤ 2 ^ 32 - 1 ∧ Lists text n := by
  constructor
  · rintro ⟨line, hline, rfl⟩
    obtain ⟨hzero, hlists⟩ := mem_parallelLines_iff.mp hline
    have hpos : line.toNat ≠ 0 := fun h => hzero (UInt32.toNat_inj.mp h)
    have hlt := line.toNat_lt
    exact ⟨by omega, by omega, hlists⟩
  · rintro ⟨hpos, hle, hlists⟩
    have hlt : n < UInt32.size := by
      rw [UInt32.size]
      omega
    have hn : (UInt32.ofNat n).toNat = n := UInt32.toNat_ofNat_of_lt' hlt
    have hzero : UInt32.ofNat n ≠ 0 := by
      intro h
      rw [h, UInt32.toNat_zero] at hn
      omega
    refine ⟨UInt32.ofNat n, mem_parallelLines_iff.mpr ⟨hzero, ?_⟩, hn⟩
    rw [hn]
    exact hlists

theorem get?_annotations (text : String) (family : Family) (line : UInt32) :
    (annotations text family).get? line =
      if line ∈ parallelLines text then some (family.loopDirective "") else none :=
  Annotations.get?_foldl_add (isLine_loopDirective family) _ line

def withReturns (cs : List Char) : List Char :=
  cs.flatMap fun c => if c = '\n' then ['\r', '\n'] else [c]

theorem withReturns_of_notMem {w : List Char} (hw : '\n' ∉ w) : withReturns w = w := by
  have hsame : ∀ c ∈ w, (if c = '\n' then ['\r', '\n'] else [c]) = [c] := by
    intro c hc
    rw [if_neg]
    rintro rfl
    exact hw hc
  rw [withReturns, List.flatMap_congr hsame, List.flatMap_singleton']

theorem withReturns_append_newline {w : List Char} (hw : '\n' ∉ w) (rest : List Char) :
    withReturns (w ++ '\n' :: rest) = (w ++ ['\r']) ++ '\n' :: withReturns rest := by
  have hline := withReturns_of_notMem hw
  rw [withReturns] at hline
  rw [withReturns, List.flatMap_append, hline]
  simp [withReturns]

theorem exists_record_withReturns_iff (cs : List Char) (n : Nat) :
    (∃ record ∈ (withReturns cs).splitOn '\n', Names record n) ↔
      ∃ record ∈ cs.splitOn '\n', Names record n := by
  induction cs using induction_records with
  | last w hw => rw [withReturns_of_notMem hw]
  | line w rest hw ih =>
      have hreturn : Names (w ++ ['\r']) n ↔ Names w n := by
        rw [names_iff, names_iff, trim_append_blanks w (List.forall_mem_singleton.mpr rfl)]
      rw [withReturns_append_newline hw,
        List.splitOn_append_cons_self_of_not_mem (by simpa using hw),
        List.splitOn_append_cons_self_of_not_mem hw, List.exists_mem_cons_iff,
        List.exists_mem_cons_iff, hreturn, ih]

theorem annotations_eq_of_lists {text other : String}
    (h : ∀ n, 1 ≤ n → n ≤ 2 ^ 32 - 1 → (Lists text n ↔ Lists other n)) (family : Family) :
    annotations text family = annotations other family := by
  apply Annotations.ext
  intro line
  have hlines : line ∈ parallelLines text ↔ line ∈ parallelLines other := by
    rw [mem_parallelLines_iff, mem_parallelLines_iff]
    refine and_congr_right fun hzero => h _ ?_ ?_
    · exact Nat.one_le_iff_ne_zero.mpr fun heq => hzero (UInt32.toNat_inj.mp heq)
    · have := line.toNat_lt
      omega
  rw [get?_annotations, get?_annotations, if_congr hlines rfl rfl]

-- A number has the directive if it is one of a source line and some record names it. No line has
-- another text. What names the same lines is the same list, in whatever order, how often and
-- between what other records it does so, and with whatever line ends.
theorem annotations_iff_lists (text : String) (family : Family) :
    (∀ n : Nat, (∃ line : UInt32, line.toNat = n ∧
        (annotations text family).get? line = some (family.loopDirective "")) ↔
      1 ≤ n ∧ n ≤ 2 ^ 32 - 1 ∧ Lists text n) ∧
    (∀ line directive, (annotations text family).get? line = some directive →
      directive = family.loopDirective "") ∧
    (∀ other : String, (∀ n, 1 ≤ n → n ≤ 2 ^ 32 - 1 → (Lists text n ↔ Lists other n)) →
      annotations text family = annotations other family) ∧
    annotations (String.ofList (withReturns text.toList)) family = annotations text family := by
  refine ⟨fun n => ?_, fun line directive hget => ?_, fun other h => ?_, ?_⟩
  · rw [← exists_mem_parallelLines_iff]
    refine exists_congr fun line => ?_
    rw [get?_annotations, and_comm]
    simp
  · rw [get?_annotations] at hget
    split at hget
    · exact (Option.some.inj hget).symm
    · cases hget
  · exact annotations_eq_of_lists h family
  · refine annotations_eq_of_lists (fun n _ _ => ?_) family
    rw [Lists, String.toList_ofList]
    exact exists_record_withReturns_iff text.toList n

-- One line named twice, records that name none, and a last record with blanks in front.
def scattered : String := "\t+007 \r\n# lines\n7\n4294967296\n-3\n0\n\u3000 12"

theorem scattered_annotations : Lists scattered 7 ∧
    (∃ line : UInt32, line.toNat = 7 ∧
      (annotations scattered .acc).get? line = some "#pragma acc loop independent\n") ∧
    (∀ n, 1 ≤ n → n ≤ 2 ^ 32 - 1 → (Lists scattered n ↔ Lists "12\n7\n" n)) ∧
    annotations scattered .acc = annotations "12\n7\n" .acc := by
  have hscattered : parallelLines scattered = [7, 7, 12] := by decide +kernel
  have hplain : parallelLines "12\n7\n" = [12, 7] := by decide +kernel
  have hmem : (7 : UInt32) ∈ parallelLines scattered := by simp [hscattered]
  have hseven : Lists scattered 7 := (mem_parallelLines_iff.mp hmem).2
  have hlists : ∀ n, 1 ≤ n → n ≤ 2 ^ 32 - 1 → (Lists scattered n ↔ Lists "12\n7\n" n) := by
    intro n hpos hle
    have hleft := exists_mem_parallelLines_iff scattered n
    have hright := exists_mem_parallelLines_iff "12\n7\n" n
    simp only [hscattered, hplain, hpos, hle, true_and] at hleft hright
    rw [← hleft, ← hright]
    simp [or_comm]
  obtain ⟨hmaps, -, hsame, -⟩ := annotations_iff_lists scattered .acc
  exact ⟨hseven, (hmaps 7).mpr ⟨by decide, by decide, hseven⟩, hlists, hsame _ hlists⟩

end LineList

end LoopPragma
