import LoopPragma.Proofs.Counts.Sum
import Mathlib.Algebra.GroupWithZero.Nat

namespace LoopPragma

def Event.amount (counter : Counter) : Event → Nat
  | .counted c amount => if c = counter then amount.toNat else 0
  | _ => 0

namespace Counts

def total (counter : Counter) (events : List Event) : Nat :=
  (events.map (Event.amount counter)).sum

variable {counter : Counter}

@[simp] theorem total_nil : total counter [] = 0 := rfl

@[simp] theorem total_append (before after : List Event) :
    total counter (before ++ after) = total counter before + total counter after := by
  simp [total]

@[simp] theorem total_singleton (event : Event) : total counter [event] = event.amount counter := by
  simp [total]

theorem total_map {α : Type} (xs : List α) (event : α → Event) :
    total counter (xs.map event) = (xs.map fun a => (event a).amount counter).sum := by
  simp [total, Function.comp_def]

theorem total_flatMap {α : Type} (xs : List α) (events : α → List Event) :
    total counter (xs.flatMap events) = (xs.map fun a => total counter (events a)).sum := by
  induction xs with
  | nil => rfl
  | cons a xs ih => rw [List.flatMap_cons, total_append, ih, List.map_cons, List.sum_cons]

theorem ext_get {c d : Counts} (h : ∀ counter, c.get counter = d.get counter) : c = d := by
  cases c
  cases d
  rw [mk.injEq]
  exact ⟨h .loops, h .analyzableLoops, h .annotatedLoops, h .safeLoopCalls⟩

theorem get_add (c d : Counts) : (c.add d).get counter =
    saturatingAdd (c.get counter) (d.get counter) := by
  cases counter <;> rfl

theorem toNat_get_ofEvent (event : Event) :
    ((ofEvents [event]).get counter).toNat = event.amount counter := by
  cases event with
  | counted c amount =>
      have hlt := amount.toNat_lt
      have hzero : saturatingAdd 0 amount = amount := by rw [saturatingAdd_comm, saturatingAdd_zero]
      by_cases h : c = counter
      · subst h
        cases c <;> simp [ofEvents, bump, get, Event.amount, hzero]
      · cases c <;> cases counter <;> simp_all [ofEvents, bump, get, Event.amount]
  | analyzed region => cases counter <;> rfl
  | extracted target request result => cases counter <;> rfl

theorem toNat_get_ofEvents (events : List Event) :
    ((ofEvents events).get counter).toNat = min (total counter events) (UInt64.size - 1) := by
  induction events with
  | nil => cases counter <;> rfl
  | cons event events ih =>
      rw [← List.singleton_append, ofEvents_append, get_add, toNat_saturatingAdd, ih,
        toNat_get_ofEvent, total_append, total_singleton]
      omega

theorem get_ofEvents_of_total {before after : List Event} {amount : Nat}
    (h : total counter after = total counter before + amount) (hfits : amount < UInt64.size) :
    (ofEvents after).get counter =
      saturatingAdd ((ofEvents before).get counter) (.ofNat amount) := by
  have hamount : (UInt64.ofNat amount).toNat = amount := UInt64.toNat_ofNat_of_lt' hfits
  apply UInt64.toNat_inj.mp
  rw [toNat_saturatingAdd, toNat_get_ofEvents, toNat_get_ofEvents, h, hamount]
  omega

theorem total_mono {moment later : List Event} (h : moment <+: later) :
    total counter moment ≤ total counter later := by
  obtain ⟨rest, rfl⟩ := h
  rw [total_append]
  omega

theorem get_ofEvents_le {c d : Counter} {before after : List Event}
    (h : total c before ≤ total d after) :
    (ofEvents before).get c ≤ (ofEvents after).get d := by
  rw [UInt64.le_iff_toNat_le, toNat_get_ofEvents, toNat_get_ofEvents]
  omega

end Counts

end LoopPragma
