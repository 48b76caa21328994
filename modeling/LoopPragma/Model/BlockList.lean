namespace LoopPragma

def markBlocks {n : Nat} (blocks : List (Fin n)) : Vector Bool n :=
  blocks.foldr (fun (b : Fin n) marks => marks.set b true b.isLt) (Vector.replicate n false)

theorem getElem_markBlocks {n : Nat} (blocks : List (Fin n)) (b : Fin n) :
    (markBlocks blocks)[b] = blocks.contains b := by
  induction blocks with
  | nil => simp [markBlocks]
  | cons c blocks ih =>
    have hset : (markBlocks (c :: blocks))[b] =
        if c = b then true else (markBlocks blocks)[b] := by
      simp [markBlocks, Vector.getElem_set, Fin.ext_iff]
    rw [hset, ih]
    by_cases h : c = b
    · simp [h]
    · simp [h, Ne.symm h]

-- The marks tell at once whether a block is in the list.
structure BlockList (n : Nat) where
  toList : List (Fin n)
  marks : Vector Bool n := markBlocks toList
  marks_eq : marks = markBlocks toList := by rfl

namespace BlockList

variable {n : Nat} (blocks : BlockList n)

def contains (b : Fin n) : Bool := blocks.marks.get b

instance : Membership (Fin n) (BlockList n) := ⟨fun blocks b => b ∈ blocks.toList⟩

theorem contains_iff {b : Fin n} : blocks.contains b = true ↔ b ∈ blocks := by
  change blocks.marks[b] = true ↔ b ∈ blocks.toList
  rw [blocks.marks_eq, getElem_markBlocks, List.contains_iff_mem]

instance (b : Fin n) : Decidable (b ∈ blocks) := decidable_of_iff _ blocks.contains_iff

theorem mem_def {b : Fin n} : b ∈ blocks ↔ b ∈ blocks.toList := Iff.rfl

end BlockList

end LoopPragma
