import LoopPragma.Placement.Progress
import Mathlib.Data.List.Induction

namespace LoopPragma.Counts

section Saturation

variable (a b c : UInt64)

theorem toNat_saturatingAdd :
    (saturatingAdd a b).toNat = min (a.toNat + b.toNat) (UInt64.size - 1) := by
  have ha := a.toNat_lt
  have hb := b.toNat_lt
  unfold saturatingAdd
  by_cases h : a.toNat + b.toNat < UInt64.size
  · have hsum : (a + b).toNat = a.toNat + b.toNat := by
      rw [UInt64.toNat_add]
      exact Nat.mod_eq_of_lt h
    rw [if_pos h, hsum]
    omega
  · have hmax : (0 - 1 : UInt64).toNat = UInt64.size - 1 := by decide
    rw [if_neg h, hmax]
    omega

theorem saturatingAdd_comm : saturatingAdd a b = saturatingAdd b a := by
  apply UInt64.toNat_inj.mp
  rw [toNat_saturatingAdd, toNat_saturatingAdd, Nat.add_comm]

theorem saturatingAdd_assoc :
    saturatingAdd (saturatingAdd a b) c = saturatingAdd a (saturatingAdd b c) := by
  apply UInt64.toNat_inj.mp
  simp only [toNat_saturatingAdd]
  omega

theorem saturatingAdd_zero : saturatingAdd a 0 = a := by
  have ha := a.toNat_lt
  apply UInt64.toNat_inj.mp
  rw [toNat_saturatingAdd]
  show min (a.toNat + 0) (2 ^ 64 - 1) = a.toNat
  omega

end Saturation

def add (c d : Counts) : Counts where
  loops := saturatingAdd c.loops d.loops
  analyzableLoops := saturatingAdd c.analyzableLoops d.analyzableLoops
  annotatedLoops := saturatingAdd c.annotatedLoops d.annotatedLoops
  safeLoopCalls := saturatingAdd c.safeLoopCalls d.safeLoopCalls

def sum (parts : List Counts) : Counts := parts.foldr add {}

variable (c d e : Counts)

theorem add_comm : c.add d = d.add c := by
  unfold add
  congr 1 <;> exact saturatingAdd_comm _ _

theorem add_assoc : (c.add d).add e = c.add (d.add e) := by
  unfold add
  congr 1 <;> exact saturatingAdd_assoc _ _ _

theorem add_zero : c.add {} = c := by
  cases c
  simp [add, saturatingAdd_zero]

theorem zero_add : ({} : Counts).add c = c := by rw [add_comm, add_zero]

theorem bump_eq_add (counter : Counter) (amount : UInt64) :
    c.bump counter amount = c.add (({} : Counts).bump counter amount) := by
  have hzero (b : UInt64) : saturatingAdd 0 b = b := by
    rw [saturatingAdd_comm, saturatingAdd_zero]
  cases c
  cases counter <;> simp [bump, add, saturatingAdd_zero, hzero]

theorem sum_perm {parts parts' : List Counts} (h : parts.Perm parts') : sum parts = sum parts' := by
  apply h.foldr_eq'
  intro x _ y _ z
  rw [← add_assoc, add_comm y x, add_assoc]

theorem ofEvents_append (before after : List Event) :
    ofEvents (before ++ after) = (ofEvents before).add (ofEvents after) := by
  induction after using List.reverseRecOn with
  | nil => simp [ofEvents, add_zero]
  | append_singleton after event ih =>
      have hlast (events : List Event) : ofEvents (events ++ [event]) =
          (ofEvents events).add (ofEvents [event]) := by
        cases event with
        | counted counter amount =>
            simp only [ofEvents, List.foldl_append, List.foldl_cons, List.foldl_nil]
            exact bump_eq_add _ counter amount
        | analyzed region => simp [ofEvents, add_zero]
        | extracted target request result => simp [ofEvents, add_zero]
      rw [← List.append_assoc, hlast, ih, hlast after, add_assoc]

theorem ofEvents_flatMap {α : Type} (parts : List α) (events : α → List Event) :
    ofEvents (parts.flatMap events) = sum (parts.map fun part => ofEvents (events part)) := by
  induction parts with
  | nil => rfl
  | cons part parts ih =>
      rw [List.flatMap_cons, ofEvents_append, ih]
      rfl

end LoopPragma.Counts
