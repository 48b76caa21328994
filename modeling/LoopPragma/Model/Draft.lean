import LoopPragma.Model.Id

namespace LoopPragma

structure Tags where
  parallel : Bool := false
  divergent : Bool := false
deriving DecidableEq

structure Call where
  callee : Option String := none
  hasResult : Bool := false
deriving DecidableEq

structure Block where
  lines : List UInt32 := []
  calls : List Call := []
  tags : Tags := {}
deriving DecidableEq

def Block.maxLine (b : Block) : Option UInt32 := b.lines.max?

inductive Linkage where
  | definition
  | declaration
  | intrinsic
  | availableExternally
deriving DecidableEq

namespace Linkage

def isOffloadable : Linkage → Bool
  | definition => true
  | _ => false

def name : Linkage → String
  | definition => "definition"
  | declaration => "declaration"
  | intrinsic => "intrinsic"
  | availableExternally => "available_externally"

def all : List Linkage := [definition, declaration, intrinsic, availableExternally]

def ofName? (name : String) : Option Linkage := all.find? (·.name = name)

end Linkage

structure BlockDraft extends Block where
  id : BlockId
deriving DecidableEq

structure LoopDraft where
  id : LoopId
  header : BlockId
  latch : Option BlockId := none
  blocks : List BlockId
  parent : Option LoopId := none
  startLine : Option UInt32 := none
deriving DecidableEq

structure RegionDraft where
  id : RegionId
  parent : Option RegionId := none
  entering : Option BlockId := none
  blocks : List BlockId
  detached : Bool := false
deriving DecidableEq

-- What is said about a function before anything about it is checked.
structure FunctionDraft where
  name : String
  linkage : Linkage := .definition
  blocks : List BlockDraft := []
  loops : List LoopDraft := []
  regions : List RegionDraft := []
deriving DecidableEq

structure ProgramDraft where
  functions : List FunctionDraft := []
deriving DecidableEq

namespace FunctionDraft

def setLinkage (f : FunctionDraft) (linkage : Linkage) : FunctionDraft := { f with linkage }

def addBlock (f : FunctionDraft) (lines : List UInt32) : BlockId × FunctionDraft :=
  let id := .ofIndex f.blocks.length
  (id, { f with blocks := f.blocks ++ [{ id, lines }] })

def editBlock (f : FunctionDraft) (id : BlockId) (edit : Block → Block) :
    Except Fault FunctionDraft := do
  let i ← id.resolve f.blocks.length
  return { f with blocks := f.blocks.modify i fun b => { b with toBlock := edit b.toBlock } }

def addCall (f : FunctionDraft) (id : BlockId) (call : Call) : Except Fault FunctionDraft :=
  f.editBlock id fun b => { b with calls := b.calls ++ [call] }

def markParallel (f : FunctionDraft) (id : BlockId) : Except Fault FunctionDraft :=
  f.editBlock id fun b => { b with tags := { b.tags with parallel := true } }

def markDivergent (f : FunctionDraft) (id : BlockId) : Except Fault FunctionDraft :=
  f.editBlock id fun b => { b with tags := { b.tags with divergent := true } }

def addLoop (f : FunctionDraft) (parent : Option LoopId) (header : BlockId)
    (latch : Option BlockId) (blocks : List BlockId) (startLine : Option UInt32) :
    LoopId × FunctionDraft :=
  let id := .ofIndex f.loops.length
  (id, { f with loops := f.loops ++ [{ id, header, latch, blocks, parent, startLine }] })

def addRegion (f : FunctionDraft) (parent : Option RegionId) (entering : Option BlockId)
    (blocks : List BlockId) : RegionId × FunctionDraft :=
  let id := .ofIndex f.regions.length
  (id, { f with regions := f.regions ++ [{ id, parent, entering, blocks }] })

def addDetachedRegion (f : FunctionDraft) (entering : Option BlockId) (blocks : List BlockId) :
    RegionId × FunctionDraft :=
  let id := .ofIndex f.regions.length
  (id, { f with regions := f.regions ++ [{ id, entering, blocks, detached := true }] })

end FunctionDraft

end LoopPragma
