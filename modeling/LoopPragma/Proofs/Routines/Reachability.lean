import LoopPragma.Routines
import Mathlib.Data.List.Nodup
import Mathlib.Logic.Relation

namespace LoopPragma.Program

open Relation

variable {p : Program}

def Offloadable (p : Program) (name : String) : Prop := ∃ f, p.offloadable? name = some f

def Calls (p : Program) (caller callee : String) : Prop :=
  ∃ f, p.offloadable? caller = some f ∧ callee ∈ f.callees

def Open (p : Program) (routines : Routines) (name : String) : Prop :=
  p.Offloadable name ∧ name ∉ routines

def Reaches (p : Program) (routines : Routines) (root name : String) : Prop :=
  p.Open routines root ∧
    ReflTransGen (fun u v => p.Calls u v ∧ p.Open routines v) root name

theorem Reaches.refl {routines : Routines} {root : String} (h : p.Open routines root) :
    p.Reaches routines root root := ⟨h, .refl⟩

theorem Reaches.tail {routines : Routines} {root u v : String} (h : p.Reaches routines root u)
    (hcall : p.Calls u v) (hv : p.Open routines v) : p.Reaches routines root v :=
  ⟨h.1, h.2.tail ⟨hcall, hv⟩⟩

theorem Reaches.head {routines : Routines} {root u v : String} (hroot : p.Open routines root)
    (hcall : p.Calls root u) (h : p.Reaches routines u v) : p.Reaches routines root v :=
  ⟨hroot, h.2.head ⟨hcall, h.1⟩⟩

theorem Reaches.mono {before after : Routines} {root name : String}
    (hsub : ∀ x ∈ before, x ∈ after) (h : p.Reaches after root name) :
    p.Reaches before root name := by
  have hopen (x : String) (hx : p.Open after x) : p.Open before x :=
    ⟨hx.1, fun hmem => hx.2 (hsub x hmem)⟩
  exact ⟨hopen root h.1, h.2.lift id fun _ v hv => ⟨hv.1, hopen v hv.2⟩⟩

-- A path is cut at its last visit to a node; from there on it avoids that node.
theorem Reaches.avoid {routines : Routines} {root name : String}
    (h : p.Reaches routines root name) (node : String) :
    name = node ∨ p.Reaches (routines.insert node) root name ∨
      ∃ callee, p.Calls node callee ∧ p.Reaches (routines.insert node) callee name := by
  obtain ⟨hroot, hpath⟩ := h
  have hopen (x : String) (hne : x ≠ node) (hx : p.Open routines x) :
      p.Open (routines.insert node) x := by
    refine ⟨hx.1, fun hmem => ?_⟩
    rcases Std.ExtTreeSet.mem_insert.mp hmem with heq | hmem
    · exact hne (Std.LawfulEqCmp.eq_of_compare heq).symm
    · exact hx.2 hmem
  induction hpath with
  | refl =>
      by_cases hne : root = node
      · exact Or.inl hne
      · exact Or.inr (Or.inl (.refl (hopen root hne hroot)))
  | @tail u v _ hstep ih =>
      obtain ⟨hcall, hv⟩ := hstep
      by_cases hne : v = node
      · exact Or.inl hne
      · have hv := hopen v hne hv
        rcases ih with rfl | hu | ⟨callee, hnode, hu⟩
        · exact Or.inr (Or.inr ⟨v, hcall, .refl hv⟩)
        · exact Or.inr (Or.inl (hu.tail hcall hv))
        · exact Or.inr (Or.inr ⟨callee, hnode, hu.tail hcall hv⟩)

theorem mem_register_iff (routines : Routines) (pending : List String) (name : String) :
    name ∈ p.register routines pending ↔
      name ∈ routines ∨ ∃ root ∈ pending, p.Reaches routines root name := by
  fun_induction p.register routines pending with
  | case1 routines => simp
  | case2 routines first pending hnone ih =>
      rw [ih]
      have hclosed : ¬p.Reaches routines first name := by
        rintro ⟨⟨⟨f, hf⟩, -⟩, -⟩
        rw [hnone] at hf
        cases hf
      simp [hclosed]
  | case3 routines first pending f hf hmem ih =>
      rw [ih]
      have hclosed : ¬p.Reaches routines first name := fun h => h.1.2 hmem
      simp [hclosed]
  | case4 routines first pending f hf hnew ih =>
      have hfirst : p.Open routines first := ⟨⟨f, hf⟩, hnew⟩
      have hsub (x : String) (hx : x ∈ routines) : x ∈ routines.insert first :=
        Std.ExtTreeSet.mem_insert.mpr (Or.inr hx)
      have hcalls (callee : String) :
          callee ∈ (f.callees.filter (· ∉ routines.insert first)).reverse ↔
            p.Calls first callee ∧ callee ∉ routines.insert first := by
        rw [List.mem_reverse, List.mem_filter, decide_eq_true_eq]
        refine and_congr_left fun _ => ⟨fun hmem => ⟨f, hf, hmem⟩, ?_⟩
        rintro ⟨g, hg, hmem⟩
        obtain rfl : f = g := Option.some.inj (hf.symm.trans hg)
        exact hmem
      rw [ih]
      constructor
      · rintro (hmem | ⟨root, hroot, h⟩)
        · rcases Std.ExtTreeSet.mem_insert.mp hmem with heq | hmem
          · obtain rfl := Std.LawfulEqCmp.eq_of_compare heq
            exact Or.inr ⟨first, List.mem_cons_self, .refl hfirst⟩
          · exact Or.inl hmem
        · right
          rcases List.mem_append.mp hroot with hcallee | hpending
          · have hcall := ((hcalls root).mp hcallee).1
            exact ⟨first, List.mem_cons_self, .head hfirst hcall (h.mono hsub)⟩
          · exact ⟨root, List.mem_cons_of_mem _ hpending, h.mono hsub⟩
      · rintro (hmem | ⟨root, hroot, h⟩)
        · exact Or.inl (hsub name hmem)
        · rcases h.avoid first with rfl | h | ⟨callee, hcall, h⟩
          · exact Or.inl Std.ExtTreeSet.mem_insert_self
          · rcases List.mem_cons.mp hroot with rfl | hpending
            · exact absurd Std.ExtTreeSet.mem_insert_self h.1.2
            · exact Or.inr ⟨root, List.mem_append_right _ hpending, h⟩
          · have hmem := (hcalls callee).mpr ⟨hcall, h.1.2⟩
            exact Or.inr ⟨callee, List.mem_append_left _ hmem, h⟩

section Order

variable {p' : Program}

theorem find?_eq_some_iff {name : String} {f : Function} :
    p.find? name = some f ↔ f ∈ p.functions ∧ f.name = name := by
  constructor
  · intro h
    exact ⟨List.mem_of_find?_eq_some h, by simpa using List.find?_some h⟩
  · intro h
    cases hfind : p.find? name with
    | none =>
        have hne := List.find?_eq_none.mp hfind f h.1
        exact absurd h.2 (by simpa using hne)
    | some g =>
        have hg : g.name = name := by simpa using List.find?_some hfind
        have hmem : g ∈ p.functions := List.mem_of_find?_eq_some hfind
        rw [List.inj_on_of_nodup_map p.nodup hmem h.1 (hg.trans h.2.symm)]

theorem register_perm (h : p'.functions.Perm p.functions) (routines : Routines)
    (pending : List String) : p'.register routines pending = p.register routines pending := by
  have hfind (name : String) : p'.find? name = p.find? name := by
    apply Option.ext
    intro f
    rw [find?_eq_some_iff, find?_eq_some_iff, h.mem_iff]
  have hoffloadable (name : String) : p'.offloadable? name = p.offloadable? name := by
    rw [offloadable?, offloadable?, hfind]
  apply Std.ExtTreeSet.ext_mem
  intro name
  rw [mem_register_iff, mem_register_iff]
  simp only [Reaches, Open, Offloadable, Calls, hoffloadable]

end Order

section Closed

-- Whatever a registered function calls and can be offloaded is registered too.
def Closed (p : Program) (routines : Routines) : Prop :=
  ∀ u v, u ∈ routines → p.Calls u v → p.Offloadable v → v ∈ routines

variable {routines : Routines}

theorem closed_empty : p.Closed ∅ := fun _ _ hu => absurd hu Std.ExtTreeSet.not_mem_empty

theorem Closed.register (h : p.Closed routines) (pending : List String) :
    p.Closed (p.register routines pending) := by
  intro u v hu hcall hv
  rw [mem_register_iff] at hu ⊢
  by_cases hmem : v ∈ routines
  · exact Or.inl hmem
  · rcases hu with hu | ⟨root, hroot, hu⟩
    · exact absurd (h u v hu hcall hv) hmem
    · exact Or.inr ⟨root, hroot, hu.tail hcall ⟨hv, hmem⟩⟩

-- On a closed set a search loses nothing by stopping at what is there.
theorem Closed.mem_register_iff (h : p.Closed routines) (pending : List String) (name : String) :
    name ∈ p.register routines pending ↔ name ∈ routines ∨ name ∈ p.register ∅ pending := by
  rw [Program.mem_register_iff, Program.mem_register_iff]
  have hempty (x : String) (hx : p.Offloadable x) : p.Open ∅ x :=
    ⟨hx, Std.ExtTreeSet.not_mem_empty⟩
  constructor
  · rintro (hmem | ⟨root, hroot, hreach⟩)
    · exact Or.inl hmem
    · exact Or.inr (Or.inr ⟨root, hroot, hreach.mono fun x hx =>
        absurd hx Std.ExtTreeSet.not_mem_empty⟩)
  · rintro (hmem | hmem | ⟨root, hroot, hopen, hpath⟩)
    · exact Or.inl hmem
    · exact absurd hmem Std.ExtTreeSet.not_mem_empty
    · have hsplit : name ∈ routines ∨ p.Reaches routines root name := by
        induction hpath with
        | refl =>
            by_cases hmem : root ∈ routines
            · exact Or.inl hmem
            · exact Or.inr (.refl ⟨hopen.1, hmem⟩)
        | @tail u v _ hstep ih =>
            obtain ⟨hcall, hv, -⟩ := hstep
            by_cases hmem : v ∈ routines
            · exact Or.inl hmem
            · rcases ih with hu | hu
              · exact Or.inl (h u v hu hcall hv)
              · exact Or.inr (hu.tail hcall ⟨hv, hmem⟩)
      exact hsplit.imp_right fun hreach => ⟨root, hroot, hreach⟩

theorem Closed.union {more all : Routines} (h : p.Closed routines) (hmore : p.Closed more)
    (hall : ∀ name, name ∈ all ↔ name ∈ routines ∨ name ∈ more) : p.Closed all := by
  intro u v hu hcall hv
  rw [hall] at hu ⊢
  rcases hu with hu | hu
  · exact Or.inl (h u v hu hcall hv)
  · exact Or.inr (hmore u v hu hcall hv)

theorem Closed.mem_register_union {more all : Routines} (h : p.Closed routines)
    (hmore : p.Closed more) (hall : ∀ name, name ∈ all ↔ name ∈ routines ∨ name ∈ more)
    (pending : List String) (name : String) :
    name ∈ p.register all pending ↔ name ∈ routines ∨ name ∈ p.register more pending := by
  rw [(h.union hmore hall).mem_register_iff, hmore.mem_register_iff, hall, or_assoc]

end Closed

end LoopPragma.Program
