import LoopPragma.Proofs.Routines.Reachability

namespace LoopPragma.Program

open Relation

variable {p : Program}

-- A function of the program that is defined there and has a block.
def HasBody (p : Program) (name : String) : Prop :=
  ∃ f ∈ p.functions, f.name = name ∧ f.linkage = .definition ∧ 0 < f.numBlocks

-- From one function to another through direct calls. All functions on the way have a body, the
-- first and the last one included.
inductive CallPath (p : Program) : String → String → Prop
  | here {name} (h : p.HasBody name) : CallPath p name name
  | call {f callee name} (hf : f ∈ p.functions) (h : p.HasBody f.name) (hcall : f.Calls callee)
      (hpath : CallPath p callee name) : CallPath p f.name name

theorem offloadable?_eq_some_iff {name : String} {f : Function} :
    p.offloadable? name = some f ↔
      f ∈ p.functions ∧ f.name = name ∧ f.linkage = .definition ∧ 0 < f.numBlocks := by
  have hbody : (!f.isDeclaration && f.linkage.isOffloadable) = true ↔
      f.linkage = .definition ∧ 0 < f.numBlocks := by
    have hpos : f.numBlocks ≠ 0 ↔ 0 < f.numBlocks := Nat.pos_iff_ne_zero.symm
    cases hlinkage : f.linkage <;>
      simp [Function.isDeclaration, Linkage.isOffloadable, hlinkage, hpos]
  rw [offloadable?, Option.filter_eq_some_iff, find?_eq_some_iff, hbody, and_assoc]

theorem offloadable_iff_hasBody {name : String} : p.Offloadable name ↔ p.HasBody name :=
  exists_congr fun _ => offloadable?_eq_some_iff

-- Such a path through functions that are not registered yet.
inductive FreshPath (p : Program) (routines : Routines) : String → String → Prop
  | here {name} (h : p.HasBody name) (hnew : name ∉ routines) : FreshPath p routines name name
  | call {f callee name} (hf : f ∈ p.functions) (h : p.HasBody f.name) (hnew : f.name ∉ routines)
      (hcall : f.Calls callee) (hpath : FreshPath p routines callee name) :
      FreshPath p routines f.name name

theorem open_iff {routines : Routines} {name : String} :
    p.Open routines name ↔ p.HasBody name ∧ name ∉ routines :=
  and_congr_left fun _ => offloadable_iff_hasBody

theorem freshPath_iff_reaches {routines : Routines} {root name : String} :
    p.FreshPath routines root name ↔ p.Reaches routines root name := by
  constructor
  · intro h
    induction h with
    | here h hnew => exact .refl (open_iff.mpr ⟨h, hnew⟩)
    | @call f callee name hf h hnew hcall _ ih =>
        obtain ⟨g, hg, hname, hbody⟩ := h
        obtain rfl : g = f := List.inj_on_of_nodup_map p.nodup hg hf hname
        have hfound : p.offloadable? g.name = some g :=
          offloadable?_eq_some_iff.mpr ⟨hf, rfl, hbody⟩
        exact .head ⟨⟨g, hfound⟩, hnew⟩ ⟨g, hfound, g.mem_callees_iff.mpr hcall⟩ ih
  · rintro ⟨hroot, hpath⟩
    induction hpath using ReflTransGen.head_induction_on with
    | refl =>
        obtain ⟨hbody, hnew⟩ := open_iff.mp hroot
        exact .here hbody hnew
    | head hstep _ ih =>
        obtain ⟨⟨f, hf, hcall⟩, hopen⟩ := hstep
        obtain ⟨hmem, rfl, -⟩ := offloadable?_eq_some_iff.mp hf
        obtain ⟨hbody, hnew⟩ := open_iff.mp hroot
        exact .call hmem hbody hnew (f.mem_callees_iff.mp hcall) (ih hopen)

theorem callPath_iff_freshPath {root name : String} :
    p.CallPath root name ↔ p.FreshPath ∅ root name := by
  constructor
  · intro h
    induction h with
    | here h => exact .here h Std.ExtTreeSet.not_mem_empty
    | call hf h hcall _ ih => exact .call hf h Std.ExtTreeSet.not_mem_empty hcall ih
  · intro h
    induction h with
    | here h _ => exact .here h
    | call hf h _ hcall _ ih => exact .call hf h hcall ih

theorem callPath_iff_reaches {root name : String} :
    p.CallPath root name ↔ p.Reaches ∅ root name :=
  callPath_iff_freshPath.trans freshPath_iff_reaches

theorem mem_register_empty_iff {pending : List String} {name : String} :
    name ∈ p.register ∅ pending ↔ ∃ root ∈ pending, p.CallPath root name := by
  rw [mem_register_iff]
  simp only [callPath_iff_reaches, Std.ExtTreeSet.not_mem_empty, false_or]

theorem Closed.mem_addRoutines_iff {routines : Routines} (h : p.Closed routines) (family : Family)
    (names : List String) (name : String) :
    name ∈ p.addRoutines family names routines ↔
      name ∈ routines ∨ family = .acc ∧ ∃ root ∈ names, p.CallPath root name := by
  rw [addRoutines]
  cases family with
  | acc =>
      have hkernels : Family.acc.hasKernels = true := rfl
      rw [if_pos hkernels, h.mem_register_iff, mem_register_empty_iff]
      simp
  | ompGpu => simp [Family.hasKernels]
  | ompCpu => simp [Family.hasKernels]

theorem Closed.addRoutines {routines : Routines} (h : p.Closed routines) (family : Family)
    (names : List String) : p.Closed (p.addRoutines family names routines) := by
  rw [Program.addRoutines]
  by_cases hkernels : family.hasKernels
  · rw [if_pos hkernels]
    exact h.register names
  · rw [if_neg hkernels]
    exact h

section Sequence

theorem register_cons (routines : Routines) (name : String) (pending : List String) :
    p.register routines (name :: pending) = match p.offloadable? name with
      | none => p.register routines pending
      | some f =>
        if name ∈ routines then p.register routines pending
        else p.register (routines.insert name)
          ((f.callees.filter (· ∉ routines.insert name)).reverse ++ pending) := by
  rw [register]
  split
  · rename_i hnone
    rw [hnone]
  · rename_i f hf
    rw [hf]
    rfl

theorem register_append (routines : Routines) (pending more : List String) :
    p.register routines (pending ++ more) = p.register (p.register routines pending) more := by
  fun_induction p.register routines pending with
  | case1 routines => rfl
  | case2 routines name pending hnone ih =>
      rw [List.cons_append, register_cons, hnone]
      exact ih
  | case3 routines name pending f hf hmem ih =>
      rw [List.cons_append, register_cons, hf]
      exact (if_pos hmem).trans ih
  | case4 routines name pending f hf hnew ih =>
      rw [List.append_assoc] at ih
      rw [List.cons_append, register_cons, hf]
      exact (if_neg hnew).trans ih

theorem addRoutines_append (family : Family) (names more : List String) (routines : Routines) :
    p.addRoutines family (names ++ more) routines =
      p.addRoutines family more (p.addRoutines family names routines) := by
  simp only [addRoutines]
  by_cases hkernels : family.hasKernels
  · simp only [if_pos hkernels, register_append]
  · simp only [if_neg hkernels]

theorem addRoutines_congr {names names' : List String} (h : ∀ name, name ∈ names ↔ name ∈ names')
    (family : Family) (routines : Routines) :
    p.addRoutines family names routines = p.addRoutines family names' routines := by
  have hregister : p.register routines names = p.register routines names' := by
    apply Std.ExtTreeSet.ext_mem
    intro name
    simp only [mem_register_iff, h]
  rw [addRoutines, addRoutines, hregister]

theorem mem_addRoutines_acc_iff {routines : Routines} {names : List String} {name : String} :
    name ∈ p.addRoutines .acc names routines ↔
      name ∈ routines ∨ ∃ root ∈ names, p.FreshPath routines root name := by
  have hkernels : Family.acc.hasKernels = true := rfl
  rw [addRoutines, if_pos hkernels, mem_register_iff]
  simp only [freshPath_iff_reaches]

-- Whatever is registered before, closed under calls or not, a search keeps it and adds what lies on
-- a fresh path from the root. Two searches do the same in either order, and a search that comes
-- again does nothing.
theorem addRoutines_exact (p : Program) (routines : Routines) (root : String) :
    (∀ name, name ∈ p.addRoutines .acc [root] routines ↔
      name ∈ routines ∨ p.FreshPath routines root name) ∧
    (∀ other, p.addRoutines .acc [other] (p.addRoutines .acc [root] routines) =
      p.addRoutines .acc [root] (p.addRoutines .acc [other] routines)) ∧
    p.addRoutines .acc [root] (p.addRoutines .acc [root] routines) =
      p.addRoutines .acc [root] routines := by
  refine ⟨fun name => ?_, fun other => ?_, ?_⟩
  · simp [mem_addRoutines_acc_iff]
  · rw [← addRoutines_append, ← addRoutines_append]
    apply addRoutines_congr
    intro name
    simp [or_comm]
  · rw [← addRoutines_append]
    apply addRoutines_congr
    intro name
    simp

end Sequence

end LoopPragma.Program
