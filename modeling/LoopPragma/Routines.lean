import LoopPragma.Directive
import LoopPragma.Model.Program
import Std.Data.ExtTreeSet

namespace LoopPragma

abbrev Routines := Std.ExtTreeSet String

namespace Program

variable (p : Program)

-- The function of that name, if it has a body that can be compiled for the device.
def offloadable? (name : String) : Option Function :=
  (p.find? name).filter fun f => !f.isDeclaration && f.linkage.isOffloadable

theorem mem_of_offloadable? {name : String} {f : Function} (h : p.offloadable? name = some f) :
    f ∈ p.functions ∧ f.name = name := by
  simp only [offloadable?, find?, Option.filter_eq_some_iff] at h
  exact ⟨List.mem_of_find?_eq_some h.1, by simpa using List.find?_some h.1⟩

def unregistered (routines : Routines) : List Function :=
  p.functions.filter fun f => f.name ∉ routines

theorem length_unregistered_insert_lt {routines : Routines} {f : Function}
    (hf : f ∈ p.functions) (hn : f.name ∉ routines) :
    (p.unregistered (routines.insert f.name)).length < (p.unregistered routines).length := by
  have hsub : p.unregistered (routines.insert f.name) =
      (p.unregistered routines).filter fun g => g.name ≠ f.name := by
    rw [unregistered, unregistered, List.filter_filter]
    refine List.filter_congr fun g _ => ?_
    by_cases hg : g.name = f.name
    · simp [hg]
    · have : ¬ f.name = g.name := fun h => hg h.symm
      simp [hg, this]
  rw [hsub]
  have hmem : f ∈ p.unregistered routines := by simp [unregistered, hf, hn]
  refine List.length_filter_lt_length_iff_exists.2 ⟨f, hmem, ?_⟩
  simp

-- Registers the pending functions and everything they call, directly or not. A function that is
-- registered already is not searched again. What a new one calls comes next, the last call first,
-- without the functions that are registered by then.
def register (routines : Routines) : List String → Routines
  | [] => routines
  | name :: pending =>
    match _h : p.offloadable? name with
    | none => register routines pending
    | some f =>
      if _hn : name ∈ routines then register routines pending
      else register (routines.insert name)
        ((f.callees.filter (· ∉ routines.insert name)).reverse ++ pending)
termination_by pending => ((p.unregistered routines).length, pending.length)
decreasing_by
  · exact Prod.Lex.right _ (by simp)
  · exact Prod.Lex.right _ (by simp)
  · obtain ⟨hf, rfl⟩ := p.mem_of_offloadable? _h
    exact Prod.Lex.left _ _ (p.length_unregistered_insert_lt hf _hn)

-- Only a family with kernels has device routines.
def addRoutines (family : Family) (names : List String) (routines : Routines) : Routines :=
  if family.hasKernels then p.register routines names else routines

end Program

end LoopPragma
