namespace LoopPragma.Text

def occursIn (needle text : List Char) : Bool :=
  @decide (needle <:+: text) (List.instDecidableIsInfixOfDecidableEq needle text)

theorem occursIn_iff {needle text : List Char} :
    occursIn needle text = true ↔ needle <:+: text := by
  simp [occursIn]

-- `new` in place of each occurrence of `old`, from left to right. The text put in is not searched
-- again.
def replaceAll (old new : List Char) : List Char → List Char
  | [] => []
  | c :: cs =>
    if old ≠ [] ∧ old <+: c :: cs then new ++ replaceAll old new ((c :: cs).drop old.length)
    else c :: replaceAll old new cs
termination_by cs => cs.length
decreasing_by
  · have := List.length_pos_iff.2 (by assumption : old ≠ [] ∧ _).1
    simp only [List.length_drop, List.length_cons]
    omega
  · simp

end LoopPragma.Text
