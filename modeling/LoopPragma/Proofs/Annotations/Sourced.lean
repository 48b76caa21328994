import LoopPragma.Annotations.Basic

namespace LoopPragma.Annotations

theorem textAt_insert (a : Annotations) (line : UInt32) (text : String) (n : UInt32) :
    textAt ⟨a.texts.insert line text⟩ n = if n = line then text else a.textAt n := by
  rw [textAt, get?, Std.ExtTreeMap.getElem?_insert]
  by_cases hn : n = line
  · simp [hn]
  · have hne : compare line n ≠ .eq := fun h => hn (Std.LawfulEqCmp.eq_of_compare h).symm
    rw [if_neg hn, if_neg hne]
    rfl

theorem textAt_of_mem_toList {a : Annotations} {entry : UInt32 × String} (h : entry ∈ a.toList) :
    a.textAt entry.1 = entry.2 := by
  have hget : a.texts[entry.1]? = some entry.2 :=
    Std.ExtTreeMap.mem_toList_iff_getElem?_eq_some.mp h
  rw [textAt, get?, hget, Option.getD_some]

theorem endsLine_append {text last : List Char} (h : endsLine last) : endsLine (text ++ last) := by
  have hlast : last.getLast? = some '\n' := by simpa [endsLine] using h
  simp [endsLine, List.getLast?_append, hlast]

theorem eq_append_of_extend? {text directive more : List Char}
    (h : extend? text directive = some more) : more = text ++ terminated directive := by
  unfold extend? at h
  split at h
  · cases h
  · exact (Option.some.inj h).symm

theorem textAt_add (a : Annotations) (line : UInt32) (directive : String) (n : UInt32) :
    (a.add line directive).textAt n = a.textAt n ∨
      n = line ∧ ((a.add line directive).textAt n).toList =
        (a.textAt n).toList ++ terminated directive.toList := by
  rw [add, add?]
  cases hextend : extend? (a.textAt line).toList directive.toList with
  | none => exact Or.inl rfl
  | some more =>
      simp only [Option.map_some, Option.getD_some, textAt_insert]
      by_cases hn : n = line
      · right
        rw [if_pos hn, String.toList_ofList, eq_append_of_extend? hextend, hn]
        exact ⟨rfl, rfl⟩
      · left
        rw [if_neg hn]

-- Every text is put together from pieces that may stand at its line.
def Sourced (W : UInt32 → List Char → Prop) (a : Annotations) : Prop :=
  ∀ n, ∃ ps : List (List Char), (a.textAt n).toList = ps.flatten ∧ ∀ p ∈ ps, W n p

namespace Sourced

variable {W W' : UInt32 → List Char → Prop} {a : Annotations}

theorem empty : Sourced W ∅ := by
  intro n
  exact ⟨[], by rfl, by simp⟩

theorem mono (h : Sourced W a) (hw : ∀ n p, W n p → W' n p) : Sourced W' a := by
  intro n
  obtain ⟨ps, htext, hps⟩ := h n
  exact ⟨ps, htext, fun p hp => hw n p (hps p hp)⟩

theorem add (h : Sourced W a) {line : UInt32} {directive : String}
    (hw : W line (terminated directive.toList)) : Sourced W (a.add line directive) := by
  intro n
  obtain ⟨ps, htext, hps⟩ := h n
  rcases textAt_add a line directive n with hsame | ⟨rfl, hmore⟩
  · exact ⟨ps, by rw [hsame, htext], hps⟩
  · refine ⟨ps ++ [terminated directive.toList], ?_, ?_⟩
    · rw [hmore, htext, List.flatten_append, List.flatten_singleton]
    · intro p hp
      rcases List.mem_append.mp hp with hp | hp
      · exact hps p hp
      · rw [List.mem_singleton.mp hp]
        exact hw

theorem addText (h : Sourced W a) {line : UInt32} {text : String}
    (hw : ∀ p ∈ Text.pieces text.toList, W line (terminated p)) :
    Sourced W (a.addText line text) := by
  have hfold (ps : List (List Char)) (hps : ∀ p ∈ ps, W line (terminated p)) (a : Annotations)
      (h : Sourced W a) :
      Sourced W ((ps.map String.ofList).foldl (fun a directive => a.add line directive) a) := by
    induction ps generalizing a with
    | nil => exact h
    | cons p ps ih =>
        have hp : W line (terminated (String.ofList p).toList) := by
          rw [String.toList_ofList]
          exact hps p List.mem_cons_self
        exact ih (fun q hq => hps q (List.mem_cons_of_mem _ hq)) _ (h.add hp)
  exact hfold _ hw a h

theorem merge (h : Sourced W a) {b : Annotations}
    (hw : ∀ n, ∀ p ∈ Text.pieces (b.textAt n).toList, W n (terminated p)) :
    Sourced W (a.merge b) := by
  have hfold (entries : List (UInt32 × String)) (hsub : ∀ entry ∈ entries, entry ∈ b.toList)
      (a : Annotations) (h : Sourced W a) :
      Sourced W (entries.foldl (fun a entry => a.addText entry.1 entry.2) a) := by
    induction entries generalizing a with
    | nil => exact h
    | cons entry entries ih =>
        refine ih (fun e he => hsub e (List.mem_cons_of_mem _ he)) _ (h.addText ?_)
        rw [← textAt_of_mem_toList (hsub entry List.mem_cons_self)]
        exact hw entry.1
  exact hfold b.toList (fun _ he => he) a h

end Sourced

end LoopPragma.Annotations
