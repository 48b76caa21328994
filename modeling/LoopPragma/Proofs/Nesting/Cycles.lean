import LoopPragma.Nesting.Basic
import Mathlib.Data.Fintype.Pigeonhole
import Mathlib.Logic.Relation

namespace LoopPragma.Nesting

open Relation

variable {n : Nat}

def IsParent (parents : Vector (Option (Fin n)) n) (i p : Fin n) : Prop := parents.get i = some p

-- Going on from `i` one may come to some point again and again.
def LeadsToCycle {α : Type} (r : α → α → Prop) (i : α) : Prop :=
  ∃ c, ReflTransGen r i c ∧ TransGen r c c

section Climb

variable (parent : Fin n → Option (Fin n))

def up (i : Fin n) : Fin n := (parent i).getD i

-- A climb that runs out of fuel has found one more link at every step.
theorem isSome_of_climb?_eq_none {fuel : Nat} {i : Fin n} (h : climb? parent fuel i = none)
    {k : Nat} (hk : k ≤ fuel) : (parent ((up parent)^[k] i)).isSome := by
  induction fuel generalizing i k with
  | zero =>
      obtain rfl : k = 0 := by omega
      cases hp : parent i with
      | none => simp [climb?, hp] at h
      | some p => simp [hp]
  | succ fuel ih =>
      cases hp : parent i with
      | none => simp [climb?, hp] at h
      | some p =>
          have hclimb : climb? parent fuel p = none := by simpa [climb?, hp] using h
          cases k with
          | zero => simp [hp]
          | succ k =>
              have hup : up parent i = p := by simp [up, hp]
              rw [Function.iterate_succ_apply, hup]
              exact ih hclimb (by omega)

variable {parent} {i : Fin n}

theorem up_of_isSome (h : (parent i).isSome) : parent i = some (up parent i) := by
  obtain ⟨p, hp⟩ := Option.isSome_iff_exists.mp h
  rw [up, hp]
  rfl

theorem reflTransGen_iterate_up {k : Nat}
    (hsome : ∀ m < k, (parent ((up parent)^[m] i)).isSome) :
    ReflTransGen (fun a b => parent a = some b) i ((up parent)^[k] i) := by
  induction k with
  | zero => exact .refl
  | succ k ih =>
      have hlink := up_of_isSome (hsome k (by omega))
      rw [Function.iterate_succ_apply']
      exact (ih fun m hm => hsome m (by omega)).tail hlink

theorem transGen_iterate_up {k l : Nat} (hkl : k < l)
    (hsome : ∀ m < l, (parent ((up parent)^[m] i)).isSome) :
    TransGen (fun a b => parent a = some b) ((up parent)^[k] i) ((up parent)^[l] i) := by
  have hlink := up_of_isSome (hsome k hkl)
  have hlater (m : Nat) (hm : m < l - (k + 1)) :
      (parent ((up parent)^[m] ((up parent)^[k + 1] i))).isSome := by
    rw [← Function.iterate_add_apply]
    exact hsome _ (by omega)
  have hrest := reflTransGen_iterate_up hlater
  rw [← Function.iterate_add_apply, show l - (k + 1) + (k + 1) = l by omega,
    Function.iterate_succ_apply'] at hrest
  exact TransGen.head' hlink hrest

-- A climb of more than `n` links passes some node twice, and its beginning may lie below that node.
theorem leadsToCycle_of_climb?_eq_none (h : climb? parent n i = none) :
    LeadsToCycle (fun a b => parent a = some b) i := by
  have hsome (k : Nat) (hk : k ≤ n) : (parent ((up parent)^[k] i)).isSome :=
    isSome_of_climb?_eq_none parent h hk
  obtain ⟨k, l, hne, heq⟩ := Fintype.exists_ne_map_eq_of_card_lt
    (fun k : Fin (n + 1) => (up parent)^[k.val] i) (by simp)
  have hcycle (k l : Fin (n + 1)) (hlt : k < l)
      (heq : (up parent)^[k.val] i = (up parent)^[l.val] i) :
      LeadsToCycle (fun a b => parent a = some b) i := by
    refine ⟨_, reflTransGen_iterate_up (k := k.val) fun m hm => hsome m (by omega), ?_⟩
    have htrans := transGen_iterate_up hlt fun m hm => hsome m (by omega)
    rwa [← heq] at htrans
  rcases lt_or_gt_of_ne hne with hlt | hlt
  · exact hcycle k l hlt heq
  · exact hcycle l k hlt heq.symm

theorem climb?_of_link {fuel d : Nat} {p : Fin n} (hp : parent i = some p)
    (h : climb? parent fuel i = some d) : ∃ e < d, climb? parent fuel p = some e := by
  cases fuel with
  | zero => simp [climb?, hp] at h
  | succ fuel =>
      simp only [climb?, hp, Option.elim_some, Option.map_eq_some_iff] at h
      obtain ⟨e, he, rfl⟩ := h
      exact ⟨e, Nat.lt_succ_self e, climb?_succ parent he⟩

theorem climb?_of_transGen {fuel d : Nat} {c : Fin n}
    (hc : TransGen (fun a b => parent a = some b) i c) (h : climb? parent fuel i = some d) :
    ∃ e < d, climb? parent fuel c = some e := by
  induction hc with
  | single hp => exact climb?_of_link hp h
  | tail _ hp ih =>
      obtain ⟨e, hed, he⟩ := ih
      obtain ⟨k, hke, hk⟩ := climb?_of_link hp he
      exact ⟨k, hke.trans hed, hk⟩

theorem climb?_eq_none_iff :
    climb? parent n i = none ↔ LeadsToCycle (fun a b => parent a = some b) i := by
  refine ⟨leadsToCycle_of_climb?_eq_none, fun ⟨c, hic, hcc⟩ => ?_⟩
  by_contra hends
  obtain ⟨d, hd⟩ := Option.ne_none_iff_exists'.mp hends
  have hc : ∃ e, climb? parent n c = some e := by
    rcases reflTransGen_iff_eq_or_transGen.mp hic with rfl | hic
    · exact ⟨d, hd⟩
    · obtain ⟨e, -, he⟩ := climb?_of_transGen hic hd
      exact ⟨e, he⟩
  obtain ⟨e, he⟩ := hc
  obtain ⟨k, hlt, hk⟩ := climb?_of_transGen hcc he
  rw [he, Option.some_inj] at hk
  omega

end Climb

theorem depth_lt_of_transGen {N : Nesting n} {i a : Fin n}
    (h : TransGen (fun i p => N.parent i = some p) i a) : N.depth a < N.depth i := by
  induction h with
  | single hp =>
      have := N.depth_of_parent hp
      omega
  | tail _ hp ih =>
      have := N.depth_of_parent hp
      omega

variable {parents : Vector (Option (Fin n)) n}

-- The node at fault is the first one from which a cycle is reached.
theorem ofParents_eq_error_iff {i : Fin n} :
    ofParents parents = .error i ↔
      LeadsToCycle (IsParent parents) i ∧ ∀ k < i, ¬LeadsToCycle (IsParent parents) k := by
  have hfind : (List.finRange n).find? (fun i => (climb? parents.get n i).isNone) = some i ↔
      LeadsToCycle (IsParent parents) i ∧ ∀ k < i, ¬LeadsToCycle (IsParent parents) k := by
    rw [List.find?_eq_some_iff_getElem, Option.isNone_iff_eq_none, climb?_eq_none_iff]
    refine and_congr_right fun _ => ⟨?_, fun hfirst => ⟨i, by simp, by simp, ?_⟩⟩
    · rintro ⟨j, hj, rfl, hfirst⟩ k hk hcycle
      have hlt : k.val < j := by simpa [Fin.lt_def] using hk
      have hclimb := hfirst k hlt
      simp [climb?_eq_none_iff.mpr hcycle] at hclimb
    · intro k hk
      have hclimb := mt climb?_eq_none_iff.mp (hfirst ⟨k, by omega⟩ hk)
      simpa [Option.isSome_iff_ne_none] using hclimb
  rw [← hfind, ofParents]
  dsimp only
  split
  · next found hfound => rw [hfound, Except.error.injEq, Option.some_inj]
  · next hnone => simp [hnone]

theorem exists_ofParents_eq_ok_iff :
    (∃ N, ofParents parents = .ok N) ↔ ∀ i, ¬TransGen (IsParent parents) i i := by
  constructor
  · rintro ⟨N, hN⟩ i hi
    obtain rfl := parents_of_ofParents hN
    have hlt : N.depth i < N.depth i := depth_lt_of_transGen hi
    omega
  · intro hacyclic
    cases h : ofParents parents with
    | ok N => exact ⟨N, rfl⟩
    | error i =>
        obtain ⟨⟨c, -, hc⟩, -⟩ := ofParents_eq_error_iff.mp h
        exact absurd hc (hacyclic c)

end LoopPragma.Nesting
