import LoopPragma.Proofs.Annotations.Pieces

namespace LoopPragma.Annotations

-- Every text of `a` begins the text that `b` has at the same line.
def Within (a b : Annotations) : Prop := ∀ line, (a.textAt line).toList <+: (b.textAt line).toList

def Holds (a : Annotations) (line : UInt32) (directive : String) : Prop :=
  directive.toList <:+: (a.textAt line).toList

variable {a b c : Annotations} {line : UInt32} {directive : String}

theorem Within.refl (a : Annotations) : a.Within a := fun _ => List.prefix_rfl

theorem Within.trans (hab : a.Within b) (hbc : b.Within c) : a.Within c :=
  fun line => (hab line).trans (hbc line)

theorem Holds.mono (h : a.Holds line directive)
    (hab : a.Within b) : b.Holds line directive :=
  List.IsInfix.trans h (hab line).isInfix

theorem within_add (a : Annotations) (line : UInt32) (directive : String) :
    a.Within (a.add line directive) := by
  intro n
  rcases textAt_add a line directive n with hsame | ⟨-, hmore⟩
  · simp [hsame]
  · rw [hmore]
    exact List.prefix_append _ _

theorem within_foldl {α : Type} {step : Annotations → α → Annotations}
    (hstep : ∀ (a : Annotations) x, a.Within (step a x)) (xs : List α) (a : Annotations) :
    a.Within (xs.foldl step a) := by
  induction xs generalizing a with
  | nil => exact .refl a
  | cons x xs ih => exact (hstep a x).trans (ih _)

theorem within_addText (a : Annotations) (line : UInt32) (text : String) :
    a.Within (a.addText line text) := by
  have hstep (a : Annotations) (directive : String) : a.Within (a.add line directive) :=
    within_add a line directive
  exact within_foldl hstep (directives text) a

theorem within_merge (a b : Annotations) : a.Within (a.merge b) := by
  have hstep (a : Annotations) (entry : UInt32 × String) :
      a.Within (a.addText entry.1 entry.2) := within_addText a entry.1 entry.2
  exact within_foldl hstep b.toList a

-- A directive that leaves its line as it is: an empty one, or one that stands there.
def IsIdle (a : Annotations) (line : UInt32) (directive : String) : Prop :=
  directive.toList = [] ∨ terminated directive.toList <:+: (a.textAt line).toList

theorem add?_eq_none_iff : a.add? line directive = none ↔ a.IsIdle line directive := by
  rw [add?, Option.map_eq_none_iff, extend?, IsIdle, ← Text.occursIn_iff, ite_eq_left_iff]
  simp only [reduceCtorEq, imp_false, Decidable.not_not]

theorem IsIdle.mono (h : a.IsIdle line directive) (hab : a.Within b) : b.IsIdle line directive :=
  h.imp_right fun hinfix => hinfix.trans (hab line).isInfix

theorem isIdle_add (a : Annotations) (line : UInt32) (directive : String) :
    (a.add line directive).IsIdle line directive := by
  cases hextend : extend? (a.textAt line).toList directive.toList with
  | none =>
      have hidle : a.IsIdle line directive :=
        add?_eq_none_iff.mp (Option.map_eq_none_iff.mpr hextend)
      exact hidle.mono (within_add a line directive)
  | some text =>
      right
      rw [textAt_add_self, hextend, Option.getD_some, eq_append_of_extend? hextend]
      exact (List.suffix_append _ _).isInfix

theorem IsIdle.holds (h : a.IsIdle line directive) (hend : endsLine directive.toList) :
    a.Holds line directive := by
  have hne : directive.toList ≠ [] := by
    intro hempty
    rw [hempty] at hend
    cases hend
  have hstands := h.resolve_left hne
  rwa [terminated, if_pos hend] at hstands

theorem holds_add (a : Annotations) (line : UInt32) {directive : String}
    (hend : endsLine directive.toList) : (a.add line directive).Holds line directive :=
  (isIdle_add a line directive).holds hend

def addAll (a : Annotations) (marks : List (UInt32 × String)) : Annotations :=
  marks.foldl (fun a mark => a.add mark.1 mark.2) a

@[simp] theorem addAll_nil (a : Annotations) : a.addAll [] = a := rfl

@[simp] theorem addAll_singleton (a : Annotations) (line : UInt32) (directive : String) :
    a.addAll [(line, directive)] = a.add line directive := rfl

theorem addAll_append (a : Annotations) (marks more : List (UInt32 × String)) :
    a.addAll (marks ++ more) = (a.addAll marks).addAll more := List.foldl_append

theorem within_addAll (a : Annotations) (marks : List (UInt32 × String)) :
    a.Within (a.addAll marks) := by
  have hstep (a : Annotations) (mark : UInt32 × String) : a.Within (a.add mark.1 mark.2) :=
    within_add a mark.1 mark.2
  exact within_foldl hstep marks a

theorem isIdle_addAll (a : Annotations) {marks : List (UInt32 × String)}
    {mark : UInt32 × String} (h : mark ∈ marks) : (a.addAll marks).IsIdle mark.1 mark.2 := by
  obtain ⟨before, later, rfl⟩ := List.append_of_mem h
  rw [addAll_append]
  exact (isIdle_add _ mark.1 mark.2).mono (within_addAll _ later)

theorem holds_addAll (a : Annotations) {marks : List (UInt32 × String)} {line : UInt32}
    {directive : String} (h : (line, directive) ∈ marks) (hend : endsLine directive.toList) :
    (a.addAll marks).Holds line directive := (isIdle_addAll a h).holds hend

end LoopPragma.Annotations
