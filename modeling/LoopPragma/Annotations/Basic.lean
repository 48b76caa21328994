import LoopPragma.Text.Lines
import LoopPragma.Text.Substring
import Std.Data.ExtTreeMap

namespace LoopPragma

structure Annotations where
  texts : Std.ExtTreeMap UInt32 String

namespace Annotations

def empty : Annotations := ⟨∅⟩

instance : EmptyCollection Annotations := ⟨empty⟩

def get? (a : Annotations) (line : UInt32) : Option String := a.texts[line]?

def textAt (a : Annotations) (line : UInt32) : String := (a.get? line).getD ""

def toList (a : Annotations) : List (UInt32 × String) := a.texts.toList

def ofList (entries : List (UInt32 × String)) : Annotations := ⟨.ofList entries⟩

def lineNumbers (a : Annotations) : List UInt32 := a.toList.map Prod.fst

def isEmpty (a : Annotations) : Bool := a.texts.isEmpty

def size (a : Annotations) : Nat := a.texts.size

@[ext] theorem ext {a b : Annotations} (h : ∀ line, a.get? line = b.get? line) : a = b := by
  cases a
  cases b
  exact congrArg mk (Std.ExtTreeMap.ext_getElem? h)

theorem mem_lineNumbers_iff {a : Annotations} {line : UInt32} :
    line ∈ a.lineNumbers ↔ (a.get? line).isSome := by
  rw [lineNumbers, toList, Std.ExtTreeMap.map_fst_toList_eq_keys, Std.ExtTreeMap.mem_keys,
    Std.ExtTreeMap.mem_iff_isSome_getElem?, get?]

theorem nodup_lineNumbers (a : Annotations) : a.lineNumbers.Nodup := by
  rw [lineNumbers, toList, Std.ExtTreeMap.map_fst_toList_eq_keys]
  exact Std.ExtTreeMap.nodup_keys

instance : DecidableEq Annotations := fun a b =>
  decidable_of_iff (a.texts == b.texts) (by cases a; cases b; simp)

def endsLine (text : List Char) : Bool := text.getLast? = some '\n'

def terminated (directive : List Char) : List Char :=
  if endsLine directive then directive else directive ++ ['\n']

-- A text with one more directive at its end. There is none if the directive is empty or occurs in
-- the text already.
def extend? (text directive : List Char) : Option (List Char) :=
  if directive = [] ∨ Text.occursIn (terminated directive) text then none
  else some (text ++ terminated directive)

-- The annotations with one more directive at a line, if that changes them.
def add? (a : Annotations) (line : UInt32) (directive : String) : Option Annotations :=
  (extend? (a.textAt line).toList directive.toList).map fun text =>
    ⟨a.texts.insert line (String.ofList text)⟩

def add (a : Annotations) (line : UInt32) (directive : String) : Annotations :=
  (a.add? line directive).getD a

def directives (text : String) : List String := (Text.pieces text.toList).map String.ofList

def addText (a : Annotations) (line : UInt32) (text : String) : Annotations :=
  (directives text).foldl (fun a directive => a.add line directive) a

-- Adds every directive of `b`, in the order of the lines.
def merge (a b : Annotations) : Annotations :=
  b.toList.foldl (fun a entry => a.addText entry.1 entry.2) a

end Annotations

end LoopPragma
