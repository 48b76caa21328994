import Mathlib.Data.List.Forall2
import LoopPragma.Document.Facts
import LoopPragma.Document.Program
import LoopPragma.Document.Report

namespace LoopPragma

-- JSON as it is written in full, and what is left of it.
abbrev Shape := Json → Json → Prop

structure Field where
  name : String
  shape : Shape
  default : Option Json

namespace Field

def required (name : String) (shape : Shape) : Field := ⟨name, shape, none⟩

def defaulted {α : Type} [Stored α] (name : String) (default : α) (shape : Shape) : Field :=
  ⟨name, shape, some (toJson default)⟩

end Field

-- A field may go if a default is declared for it and it holds that default.
inductive Trims : List Field → List (Json.Key × Json) → List (Json.Key × Json) → Prop
  | nil : Trims [] [] []
  | keep {field fields value rest members others} (hvalue : field.shape value rest)
      (h : Trims fields members others) :
      Trims (field :: fields) ((↑field.name, value) :: members) ((↑field.name, rest) :: others)
  | leave {field fields value members others} (hdefault : field.default = some value)
      (h : Trims fields members others) :
      Trims (field :: fields) ((↑field.name, value) :: members) others

namespace Shape

def plain : Shape := fun written rest => rest = written

inductive ListOf (item : Shape) : Json → Json → Prop
  | mk {items rest} (h : List.Forall₂ item items rest) : ListOf item (.array items) (.array rest)

inductive MapOf (value : Shape) : Json → Json → Prop
  | mk {members rest}
      (h : List.Forall₂ (fun m m' => m'.1 = m.1 ∧ value m.2 m'.2) members rest) :
      MapOf value (.object members) (.object rest)

inductive Record (fields : List Field) : Json → Json → Prop
  | mk {members rest} (h : Trims fields members rest) :
      Record fields (.object members) (.object rest)

section Programs

def tags : Shape := Record [.defaulted "parallel" false plain, .defaulted "divergent" false plain]

def call : Shape :=
  Record [.defaulted "callee" (none : Option String) plain, .defaulted "has_result" false plain]

def block : Shape := Record [
  .required "id" plain,
  .defaulted "lines" ([] : List UInt32) (ListOf plain),
  .defaulted "calls" ([] : List Call) (ListOf call),
  .defaulted "tags" ({} : Tags) tags]

def loop : Shape := Record [
  .required "id" plain,
  .required "header" plain,
  .defaulted "latch" (none : Option BlockId) plain,
  .required "blocks" (ListOf plain),
  .defaulted "parent" (none : Option LoopId) plain,
  .defaulted "start_line" (none : Option UInt32) plain]

def region : Shape := Record [
  .required "id" plain,
  .defaulted "parent" (none : Option RegionId) plain,
  .defaulted "entering" (none : Option BlockId) plain,
  .required "blocks" (ListOf plain),
  .defaulted "detached" false plain]

def function : Shape := Record [
  .required "name" plain,
  .defaulted "linkage" Linkage.definition plain,
  .defaulted "blocks" ([] : List BlockDraft) (ListOf block),
  .defaulted "loops" ([] : List LoopDraft) (ListOf loop),
  .defaulted "regions" ([] : List RegionDraft) (ListOf region)]

def program : Shape := Record [.defaulted "functions" ([] : List FunctionDraft) (ListOf function)]

end Programs

section Facts

def lineSpan : Shape := Record [.required "start" plain, .required "end" plain]

def extraction : Shape := Record [
  .defaulted "comments" (∅ : Std.ExtTreeMap UInt32 String) (MapOf plain),
  .defaulted "restrict" false plain,
  .defaulted "test" "" plain]

def functionFacts : Shape := Record [
  .defaulted "incomplete_side_effects" (∅ : Std.ExtTreeSet RegionId) (ListOf plain),
  .defaulted "reduced_regions" (∅ : Std.ExtTreeMap RegionId RegionId) (MapOf plain),
  .defaulted "unsafe_reductions" (∅ : Std.ExtTreeSet RegionId) (ListOf plain),
  .defaulted "unsafe_scopes" (∅ : Std.ExtTreeSet RegionId) (ListOf plain),
  .defaulted "scope_lines" (∅ : Std.ExtTreeMap RegionId LineSpan) (MapOf lineSpan),
  .defaulted "loop_extractions" (∅ : Std.ExtTreeMap LoopId ExtractionFact) (MapOf extraction),
  .defaulted "region_extractions" (∅ : Std.ExtTreeMap RegionId ExtractionFact) (MapOf extraction)]

def facts : Shape := MapOf functionFacts

end Facts

section Reports

def annotations : Shape := MapOf plain

def routines : Shape := ListOf plain

def counts : Shape := Record [.required "loops" plain, .required "analyzable_loops" plain,
  .required "annotated_loops" plain, .required "safe_loop_calls" plain]

end Reports

end Shape

inductive Found (field : Field) (value : Json) : Option Json → Prop
  | kept {rest} (h : field.shape value rest) : Found field value (some rest)
  | missing (h : field.default = some value) : Found field value none

def AllFound (look : String → Option Json) : List Field → List (Json.Key × Json) → Prop
  | field :: fields, member :: members =>
    Found field member.2 (look field.name) ∧ AllFound look fields members
  | _, _ => True

theorem AllFound.congr {look look' : String → Option Json} {fields : List Field}
    {members : List (Json.Key × Json)} (h : AllFound look fields members)
    (hsame : ∀ field ∈ fields, look' field.name = look field.name) :
    AllFound look' fields members := by
  induction fields generalizing members with
  | nil => cases members <;> exact trivial
  | cons field fields ih =>
      cases members with
      | nil => exact trivial
      | cons member members =>
          refine ⟨hsame field List.mem_cons_self ▸ h.1, ih h.2 fun other hother => ?_⟩
          exact hsame other (List.mem_cons_of_mem _ hother)

namespace Trims

variable {fields : List Field} {members rest : List (Json.Key × Json)}

theorem sublist (h : Trims fields members rest) :
    (rest.map (·.1.text)).Sublist (fields.map Field.name) := by
  induction h with
  | nil => exact .slnil
  | keep _ _ ih => exact ih.cons_cons _
  | leave _ _ ih => exact ih.cons _

theorem member?_cons_of_ne {key : Json.Key} {value : Json} {name : String} (h : key.text ≠ name) :
    Json.member? ((key, value) :: rest) name = Json.member? rest name := by
  rw [Json.member?, Json.member?, List.find?_cons_of_neg (by simpa using h)]

theorem member?_of_notMem {name : String} (h : name ∉ rest.map (·.1.text)) :
    Json.member? rest name = none := by
  rw [Json.member?, Option.map_eq_none_iff, List.find?_eq_none]
  intro member hmember hname
  exact h (List.mem_map.mpr ⟨member, hmember, of_decide_eq_true hname⟩)

theorem allFound (h : Trims fields members rest) (hnames : (fields.map Field.name).Nodup) :
    AllFound (Json.member? rest) fields members := by
  induction h with
  | nil => exact trivial
  | @keep field fields value left members others hvalue h ih =>
      rw [List.map_cons, List.nodup_cons] at hnames
      refine ⟨?_, (ih hnames.2).congr fun other hother => member?_cons_of_ne fun heq => ?_⟩
      · rw [Json.member?, List.find?_cons_of_pos (by simp)]
        exact .kept hvalue
      · exact hnames.1 (List.mem_map.mpr ⟨other, hother, heq.symm⟩)
  | @leave field fields value members others hdefault h ih =>
      rw [List.map_cons, List.nodup_cons] at hnames
      refine ⟨?_, ih hnames.2⟩
      rw [member?_of_notMem fun hmem => hnames.1 (h.sublist.subset hmem)]
      exact .missing hdefault

end Trims

theorem exists_record?_of_record {fields : List Field} {members : List (Json.Key × Json)} {j : Json}
    (hnames : (fields.map Field.name).Nodup) (h : Shape.Record fields (.object members) j) :
    ∃ look, record? (fields.map Field.name) j = some look ∧ AllFound look fields members := by
  cases h with
  | @mk members rest h =>
      refine ⟨_, if_pos (List.all_eq_true.mpr fun name _ => ?_), h.allFound hnames⟩
      have hcount := List.nodup_iff_count.mp (hnames.sublist h.sublist) name
      rw [List.count, List.countP_map, List.countP_eq_length_filter] at hcount
      exact decide_eq_true hcount

end LoopPragma
