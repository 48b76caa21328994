import Mathlib.Data.List.Forall2
import LoopPragma.Proofs.Document.Shape
import LoopPragma.Proofs.Facts.Marks

namespace LoopPragma

open Shape

namespace Decimal

theorem value_toDigits (n : Nat) : value (Nat.toDigits 10 n) = n := by
  have hvalue := Nat.ofDigitChars_toDigits (b := 10) (n := n) (by decide) (by decide)
  rwa [Nat.ofDigitChars_eq_foldl] at hvalue

theorem head?_toDigits {n : Nat} (h : (Nat.toDigits 10 n).head? = some '0') : n = 0 := by
  induction n using Nat.strongRecOn with
  | ind n ih =>
      by_cases hn : n < 10
      · have hdigit : ∀ d < 10, Nat.digitChar d = '0' → d = 0 := by decide
        rw [Nat.toDigits_of_lt_base hn, List.head?_cons] at h
        exact hdigit n hn (Option.some.inj h)
      · rw [Nat.toDigits_of_base_le (by decide) (by omega),
          List.head?_append_of_ne_nil _ Nat.toDigits_ne_nil] at h
        have hzero := ih (n / 10) (by omega) h
        omega

theorem readShortest?_toString (n : Nat) : readShortest? (toString n).toList = some n := by
  have hdigits : (Nat.toDigits 10 n).all Char.isDigit = true :=
    List.all_eq_true.mpr fun c hc => Nat.isDigit_of_mem_toDigits (by decide) (by decide) hc
  rw [Nat.toString_eq_repr, Nat.toList_repr, readShortest?, if_neg, read?,
    if_pos ⟨Nat.toDigits_ne_nil, hdigits⟩, value_toDigits]
  rintro ⟨hhead, hlength⟩
  rw [head?_toDigits hhead] at hlength
  exact hlength rfl

theorem toWord?_toNat (n : UInt32) : toWord? n.toNat = some n := by
  rw [toWord?, if_pos n.toNat_lt, UInt32.ofNat_toNat]

theorem toLongWord?_toNat (n : UInt64) : toLongWord? n.toNat = some n := by
  rw [toLongWord?, if_pos n.toNat_lt, UInt64.ofNat_toNat]

end Decimal

class LawfulKey (κ : Type) [StoredKey κ] : Prop where
  ofKey?_toKey : ∀ k : κ, StoredKey.ofKey? (StoredKey.toKey k) = some k

instance : LawfulKey String := ⟨fun _ => rfl⟩

instance : LawfulKey UInt32 where
  ofKey?_toKey n := by
    show (Decimal.readShortest? (toString n.toNat).toList).bind Decimal.toWord? = some n
    rw [Decimal.readShortest?_toString, Option.bind_some, Decimal.toWord?_toNat]

instance {kind : NodeKind} : LawfulKey (NodeId kind) where
  ofKey?_toKey id := by
    show (StoredKey.ofKey? (StoredKey.toKey id.val)).map NodeId.mk = some id
    rw [LawfulKey.ofKey?_toKey, Option.map_some]

section Collections

variable {α β γ κ : Type} [DecidableEq κ] [Ord κ] [Std.TransOrd κ] [Std.LawfulEqOrd κ]

theorem optionMapM_of_forall₂ {read : β → Option γ} {view : α → γ} {R : α → β → Prop}
    (h : ∀ a b, R a b → read b = some (view a)) {as : List α} {bs : List β}
    (hR : List.Forall₂ R as bs) : bs.mapM read = some (as.map view) := by
  induction hR with
  | nil => rfl
  | cons hab _ ih =>
      rw [List.mapM_cons, h _ _ hab, ih]
      rfl

theorem setOfList_toList (s : Std.ExtTreeSet κ) : Std.ExtTreeSet.ofList s.toList = s := by
  apply Std.ExtTreeSet.ext_mem
  intro a
  simp [Std.ExtTreeSet.mem_ofList]

theorem mapOfList_toList (m : Std.ExtTreeMap κ α) : Std.ExtTreeMap.ofList m.toList = m := by
  apply Std.ExtTreeMap.ext_getElem?
  intro k
  cases hk : m[k]? with
  | some a =>
      have hmem := Std.ExtTreeMap.mem_toList_iff_getElem?_eq_some.mpr hk
      exact Std.ExtTreeMap.getElem?_ofList_of_mem Std.ReflCmp.compare_self
        Std.ExtTreeMap.distinct_keys_toList hmem
  | none =>
      apply Std.ExtTreeMap.getElem?_ofList_of_contains_eq_false
      rw [Std.ExtTreeMap.map_fst_toList_eq_keys]
      simpa using hk

end Collections

-- What is read from the JSON of a value, and from all that may be left of it.
structure ReadsAs {α : Type} [Stored α] (shape : Shape) (view : α → α) : Prop where
  whole : ∀ a : α, shape (toJson a) (toJson a)
  reads : ∀ (a : α) (j : Json), shape (toJson a) j → ofJson? j = some (view a)

abbrev RoundTrips (α : Type) [Stored α] (shape : Shape) : Prop := ReadsAs shape (id : α → α)

namespace RoundTrips

variable {α : Type} [Stored α] {shape : Shape}

theorem of_plain (h : ∀ a : α, ofJson? (toJson a) = some a) : RoundTrips α plain where
  whole _ := rfl
  reads a _ hj := hj ▸ h a

theorem ofJson?_toJson (h : RoundTrips α shape) (a : α) : ofJson? (toJson a) = some a :=
  h.reads a _ (h.whole a)

section Scalars

theorem bool : RoundTrips Bool plain := of_plain fun _ => rfl

theorem string : RoundTrips String plain := of_plain fun _ => rfl

theorem word : RoundTrips UInt32 plain := of_plain Decimal.toWord?_toNat

theorem longWord : RoundTrips UInt64 plain := of_plain Decimal.toLongWord?_toNat

theorem nodeId {kind : NodeKind} : RoundTrips (NodeId kind) plain := by
  refine of_plain fun id => ?_
  show (ofJson? (toJson id.val)).map NodeId.mk = some id
  rw [word.ofJson?_toJson, Option.map_some]

theorem linkage : RoundTrips Linkage plain := by
  refine of_plain fun l => ?_
  cases l <;> decide

theorem family : RoundTrips Family plain := by
  refine of_plain fun f => ?_
  cases f <;> decide

-- Null stands for a missing value, so it must not stand for one that is there.
theorem option (h : RoundTrips α plain) (hnull : ∀ a : α, toJson a ≠ .null) :
    RoundTrips (Option α) plain := by
  refine of_plain fun a => ?_
  cases a with
  | none => rfl
  | some a =>
      have hsome {j : Json} (hj : j ≠ .null) :
          (ofJson? j : Option (Option α)) = (ofJson? j).map some := by
        cases j with
        | null => exact absurd rfl hj
        | _ => rfl
      show ofJson? (toJson a) = _
      rw [hsome (hnull a), h.ofJson?_toJson, Option.map_some]

theorem optionWord : RoundTrips (Option UInt32) plain := word.option nofun

theorem optionString : RoundTrips (Option String) plain := string.option nofun

theorem optionId {kind : NodeKind} : RoundTrips (Option (NodeId kind)) plain := nodeId.option nofun

end Scalars

theorem list (h : RoundTrips α shape) : RoundTrips (List α) (ListOf shape) where
  whole as := by
    refine .mk (List.forall₂_map_left_iff.mpr (List.forall₂_map_right_iff.mpr ?_))
    exact List.forall₂_same.mpr fun a _ => h.whole a
  reads as j hj := by
    have hlist : ListOf shape (.array (as.map toJson)) j := hj
    cases hlist with
    | @mk _ rest hrest =>
        show rest.mapM ofJson? = some as
        rw [optionMapM_of_forall₂ h.reads (List.forall₂_map_left_iff.mp hrest), List.map_id]

theorem set [DecidableEq α] [Ord α] [Std.TransOrd α] [Std.LawfulEqOrd α] (h : RoundTrips α shape) :
    RoundTrips (Std.ExtTreeSet α) (ListOf shape) where
  whole as := h.list.whole as.toList
  reads as j hj := by
    have hread : (ofJson? j : Option (List α)) = some as.toList := h.list.reads as.toList j hj
    show (ofJson? j : Option (List α)).map (Std.ExtTreeSet.ofList ·) = some as
    rw [hread, Option.map_some, setOfList_toList]

end RoundTrips

section Maps

variable {α κ : Type} [Stored α] [StoredKey κ] [LawfulKey κ] [DecidableEq κ] [Ord κ]
  [Std.TransOrd κ] [Std.LawfulEqOrd κ] {value : Shape}

theorem ReadsAs.map {view : α → α} (h : ReadsAs value view) :
    ReadsAs (MapOf value) fun m : Std.ExtTreeMap κ α => m.map fun _ => view where
  whole m := by
    refine .mk (List.forall₂_map_left_iff.mpr (List.forall₂_map_right_iff.mpr ?_))
    exact List.forall₂_same.mpr fun entry _ => ⟨rfl, h.whole entry.2⟩
  reads m j hj := by
    have hmap : MapOf value
        (.object (m.toList.map fun e => (StoredKey.toKey e.1, toJson e.2))) j := hj
    cases hmap with
    | @mk _ rest hrest =>
        have hread : rest.mapM member? = some (m.toList.map fun e => (e.1, view e.2)) := by
          refine optionMapM_of_forall₂ ?_ (List.forall₂_map_left_iff.mp hrest)
          rintro ⟨k, a⟩ ⟨_, j⟩ ⟨rfl, hvalue⟩
          simp only [member?, LawfulKey.ofKey?_toKey, h.reads a j hvalue, bind, Option.bind_some]
          rfl
        have hmapped := mapOfList_toList (m.map fun _ => view)
        rw [Std.ExtTreeMap.toList_map] at hmapped
        show (rest.mapM member?).map (fun entries : List (κ × α) => _) = _
        rw [hread, Option.map_some]
        exact congrArg some hmapped

theorem RoundTrips.map (h : RoundTrips α value) :
    RoundTrips (Std.ExtTreeMap κ α) (MapOf value) where
  whole := (ReadsAs.map h).whole
  reads m j hj := ((ReadsAs.map h).reads m j hj).trans (congrArg some Std.ExtTreeMap.map_id)

end Maps

namespace Found

variable {α : Type} [Stored α] {shape : Shape} {name : String} {a : α} {value : Option Json}

theorem required? (hfound : Found (.required name shape) (toJson a) value)
    (h : RoundTrips α shape) : required? value = some a := by
  cases hfound with
  | kept hrest => exact h.reads a _ hrest
  | missing hdefault => cases hdefault

theorem orDefault? {default : α} (hfound : Found (.defaulted name default shape) (toJson a) value)
    (h : RoundTrips α shape) : orDefault? default value = some a := by
  cases hfound with
  | kept hrest => exact h.reads a _ hrest
  | missing hdefault =>
      have hread := h.ofJson?_toJson default
      rw [Option.some.inj hdefault, h.ofJson?_toJson a] at hread
      exact hread.symm

end Found

theorem bind_some {α β : Type} {value : Option α} {next : α → Option β} {a : α} {b : β}
    (hvalue : value = some a) (hnext : next a = some b) : (value >>= next) = some b := by
  rw [hvalue]
  exact hnext

namespace RoundTrips

theorem tags : RoundTrips Tags Shape.tags where
  whole _ := .mk (.keep (bool.whole _) (.keep (bool.whole _) .nil))
  reads t j h := by
    obtain ⟨look, hlook, hparallel, hdivergent, -⟩ := exists_record?_of_record (by decide) h
    refine bind_some hlook (bind_some (hparallel.orDefault? bool) ?_)
    exact bind_some (hdivergent.orDefault? bool) rfl

theorem call : RoundTrips Call Shape.call where
  whole _ := .mk (.keep (optionString.whole _) (.keep (bool.whole _) .nil))
  reads c j h := by
    obtain ⟨look, hlook, hcallee, hresult, -⟩ := exists_record?_of_record (by decide) h
    refine bind_some hlook (bind_some (hcallee.orDefault? optionString) ?_)
    exact bind_some (hresult.orDefault? bool) rfl

theorem block : RoundTrips BlockDraft Shape.block where
  whole _ := .mk (.keep (nodeId.whole _) (.keep (word.list.whole _) (.keep (call.list.whole _)
    (.keep (tags.whole _) .nil))))
  reads b j h := by
    obtain ⟨look, hlook, hid, hlines, hcalls, htags, -⟩ := exists_record?_of_record (by decide) h
    refine bind_some hlook (bind_some (hid.required? nodeId) ?_)
    refine bind_some (hlines.orDefault? word.list) (bind_some (hcalls.orDefault? call.list) ?_)
    exact bind_some (htags.orDefault? tags) rfl

theorem loop : RoundTrips LoopDraft Shape.loop where
  whole _ := .mk (.keep (nodeId.whole _) (.keep (nodeId.whole _) (.keep (optionId.whole _)
    (.keep (nodeId.list.whole _) (.keep (optionId.whole _) (.keep (optionWord.whole _) .nil))))))
  reads l j h := by
    obtain ⟨look, hlook, hid, hheader, hlatch, hblocks, hparent, hline, -⟩ :=
      exists_record?_of_record (by decide) h
    refine bind_some hlook (bind_some (hid.required? nodeId) ?_)
    refine bind_some (hheader.required? nodeId) (bind_some (hlatch.orDefault? optionId) ?_)
    refine bind_some (hblocks.required? nodeId.list) (bind_some (hparent.orDefault? optionId) ?_)
    exact bind_some (hline.orDefault? optionWord) rfl

theorem region : RoundTrips RegionDraft Shape.region where
  whole _ := .mk (.keep (nodeId.whole _) (.keep (optionId.whole _) (.keep (optionId.whole _)
    (.keep (nodeId.list.whole _) (.keep (bool.whole _) .nil)))))
  reads r j h := by
    obtain ⟨look, hlook, hid, hparent, hentering, hblocks, hdetached, -⟩ :=
      exists_record?_of_record (by decide) h
    refine bind_some hlook (bind_some (hid.required? nodeId) ?_)
    refine bind_some (hparent.orDefault? optionId) (bind_some (hentering.orDefault? optionId) ?_)
    refine bind_some (hblocks.required? nodeId.list) ?_
    exact bind_some (hdetached.orDefault? bool) rfl

theorem function : RoundTrips FunctionDraft Shape.function where
  whole _ := .mk (.keep (string.whole _) (.keep (linkage.whole _) (.keep (block.list.whole _)
    (.keep (loop.list.whole _) (.keep (region.list.whole _) .nil)))))
  reads f j h := by
    obtain ⟨look, hlook, hname, hlinkage, hblocks, hloops, hregions, -⟩ :=
      exists_record?_of_record (by decide) h
    refine bind_some hlook (bind_some (hname.required? string) ?_)
    refine bind_some (hlinkage.orDefault? linkage) (bind_some (hblocks.orDefault? block.list) ?_)
    refine bind_some (hloops.orDefault? loop.list) ?_
    exact bind_some (hregions.orDefault? region.list) rfl

theorem program : RoundTrips ProgramDraft Shape.program where
  whole _ := .mk (.keep (function.list.whole _) .nil)
  reads p j h := by
    obtain ⟨look, hlook, hfunctions, -⟩ := exists_record?_of_record (by decide) h
    exact bind_some hlook (bind_some (hfunctions.orDefault? function.list) rfl)

theorem lineSpan : RoundTrips LineSpan Shape.lineSpan where
  whole _ := .mk (.keep (word.whole _) (.keep (word.whole _) .nil))
  reads s j h := by
    obtain ⟨look, hlook, hstart, hstop, -⟩ := exists_record?_of_record (by decide) h
    refine bind_some hlook (bind_some (hstart.required? word) ?_)
    exact bind_some (hstop.required? word) rfl

theorem extraction : RoundTrips ExtractionFact Shape.extraction where
  whole _ := .mk (.keep (string.map.whole _) (.keep (bool.whole _) (.keep (string.whole _) .nil)))
  reads e j h := by
    obtain ⟨look, hlook, hcomments, hrestrict, hguard, -⟩ := exists_record?_of_record (by decide) h
    refine bind_some hlook (bind_some (hcomments.orDefault? string.map) ?_)
    exact bind_some (hrestrict.orDefault? bool) (bind_some (hguard.orDefault? string) rfl)

theorem functionFacts : ReadsAs Shape.functionFacts FunctionFacts.unmarked where
  whole _ := .mk (.keep (nodeId.set.whole _) (.keep (nodeId.map.whole _)
    (.keep (nodeId.set.whole _) (.keep (nodeId.set.whole _) (.keep (lineSpan.map.whole _)
      (.keep (extraction.map.whole _) (.keep (extraction.map.whole _) .nil)))))))
  reads f j h := by
    obtain ⟨look, hlook, hincomplete, hreduced, hreductions, hscopes, hlines, hloops, hregions,
      -⟩ := exists_record?_of_record (by decide) h
    refine bind_some hlook (bind_some (hincomplete.orDefault? nodeId.set) ?_)
    refine bind_some (hreduced.orDefault? nodeId.map) ?_
    refine bind_some (hreductions.orDefault? nodeId.set) ?_
    refine bind_some (hscopes.orDefault? nodeId.set) ?_
    refine bind_some (hlines.orDefault? lineSpan.map) ?_
    refine bind_some (hloops.orDefault? extraction.map) ?_
    exact bind_some (hregions.orDefault? extraction.map) rfl

theorem facts : ReadsAs Shape.facts FactTable.unmarked where
  whole t := functionFacts.map.whole t.functions
  reads t j h := by
    have hread := functionFacts.map.reads t.functions j h
    show (ofJson? j).map FactTable.mk = _
    rw [hread]
    rfl

theorem annotations : RoundTrips Annotations Shape.annotations where
  whole a := string.map.whole a.texts
  reads a j h := by
    have hread := string.map.reads a.texts j h
    show (ofJson? j).map Annotations.mk = _
    rw [hread]
    rfl

theorem counts : RoundTrips Counts Shape.counts where
  whole _ := .mk (.keep (longWord.whole _) (.keep (longWord.whole _) (.keep (longWord.whole _)
    (.keep (longWord.whole _) .nil))))
  reads c j h := by
    obtain ⟨look, hlook, hloops, hanalyzable, hannotated, hcalls, -⟩ :=
      exists_record?_of_record (by decide) h
    refine bind_some hlook (bind_some (hloops.required? longWord) ?_)
    refine bind_some (hanalyzable.required? longWord) ?_
    refine bind_some (hannotated.required? longWord) ?_
    exact bind_some (hcalls.required? longWord) rfl

end RoundTrips

-- The JSON of a value is read as this value, and so is whatever is left of it when fields that have
-- a declared default and hold it are left out, at any depth. Marks of analyzed regions come back
-- empty.
theorem Stored.reads_what_is_left :
    RoundTrips ProgramDraft Shape.program ∧ RoundTrips FunctionDraft Shape.function ∧
    ReadsAs Shape.functionFacts FunctionFacts.unmarked ∧
    ReadsAs Shape.facts FactTable.unmarked ∧
    RoundTrips Annotations Shape.annotations ∧ RoundTrips Routines Shape.routines ∧
    RoundTrips Counts Shape.counts ∧ RoundTrips Family Shape.plain :=
  ⟨.program, .function, RoundTrips.functionFacts, RoundTrips.facts, .annotations,
    RoundTrips.string.set, .counts, .family⟩

-- A function of which only the name is left.
example : (ofJson? (.object [("name", .string "f")]) : Option FunctionDraft) =
    some { name := "f" } := by decide

end LoopPragma
