namespace LoopPragma

-- Nodes with at most one parent each. Their depths bound every climb and every descent.
structure Nesting (n : Nat) where
  parents : Vector (Option (Fin n)) n
  depths : Vector Nat n
  depth_le : ∀ i : Fin n, depths.get i ≤ n
  depth_eq : ∀ i : Fin n, depths.get i = (parents.get i).elim 0 fun p => depths.get p + 1

namespace Nesting

section Construction

variable {n : Nat} (parent : Fin n → Option (Fin n))

-- The number of links from a node up to a root, if it is not greater than the fuel.
def climb? : Nat → Fin n → Option Nat
  | 0, i => if (parent i).isNone then some 0 else none
  | fuel + 1, i => (parent i).elim (some 0) fun p => (climb? fuel p).map (· + 1)

theorem climb?_le {fuel : Nat} {i : Fin n} {d : Nat} (h : climb? parent fuel i = some d) :
    d ≤ fuel := by
  induction fuel generalizing i d with
  | zero => simp [climb?] at h; omega
  | succ fuel ih =>
    cases hp : parent i with
    | none => simp [climb?, hp] at h; omega
    | some p =>
      simp only [climb?, hp, Option.elim_some, Option.map_eq_some_iff] at h
      obtain ⟨e, he, rfl⟩ := h
      exact Nat.succ_le_succ (ih he)

theorem climb?_succ {fuel : Nat} {i : Fin n} {d : Nat} (h : climb? parent fuel i = some d) :
    climb? parent (fuel + 1) i = some d := by
  induction fuel generalizing i d with
  | zero =>
    cases hp : parent i with
    | none => simpa [climb?, hp] using h
    | some p => simp [climb?, hp] at h
  | succ fuel ih =>
    cases hp : parent i with
    | none => simpa [climb?, hp] using h
    | some p =>
      simp only [climb?, hp, Option.elim_some, Option.map_eq_some_iff] at h
      obtain ⟨e, he, rfl⟩ := h
      rw [climb?, hp, Option.elim_some, ih he, Option.map_some]

-- One step up takes one link off the climb.
theorem climb?_eq {fuel : Nat} {i : Fin n} {d : Nat} (h : climb? parent fuel i = some d) :
    d = (parent i).elim 0 fun p => (climb? parent fuel p).getD 0 + 1 := by
  cases hp : parent i with
  | none => cases fuel <;> simp_all [climb?]
  | some p =>
    cases fuel with
    | zero => simp [climb?, hp] at h
    | succ fuel =>
      simp only [climb?, hp, Option.elim_some, Option.map_eq_some_iff] at h
      obtain ⟨e, he, rfl⟩ := h
      simp [climb?_succ parent he]

end Construction

-- The nesting with these parents, or the first node that has more than `n` links above it. A chain
-- that long passes some node twice.
def ofParents {n : Nat} (parents : Vector (Option (Fin n)) n) : Except (Fin n) (Nesting n) :=
  let parent := parents.get
  match h : (List.finRange n).find? fun i => (climb? parent n i).isNone with
  | some i => .error i
  | none =>
    have climbs (i : Fin n) : ∃ d, climb? parent n i = some d := by
      rw [List.find?_eq_none] at h
      simpa [Option.ne_none_iff_exists'] using h i (List.mem_finRange i)
    have getD_climb (i : Fin n) : (Vector.ofFn fun i => (climb? parent n i).getD 0).get i =
        (climb? parent n i).getD 0 := Vector.getElem_ofFn i.isLt
    .ok {
      parents
      depths := Vector.ofFn fun i => (climb? parent n i).getD 0
      depth_le := fun i => by
        obtain ⟨d, hd⟩ := climbs i
        simpa [getD_climb, hd] using climb?_le parent hd
      depth_eq := fun i => by
        obtain ⟨d, hd⟩ := climbs i
        have h := climb?_eq parent hd
        have hd : (climb? parent n i).getD 0 = d := by rw [hd]; rfl
        rw [← hd] at h
        simpa only [getD_climb] using h }

theorem parents_of_ofParents {n : Nat} {parents : Vector (Option (Fin n)) n} {N : Nesting n}
    (h : ofParents parents = .ok N) : N.parents = parents := by
  unfold ofParents at h
  dsimp only at h
  split at h
  · cases h
  · cases h
    rfl

variable {n : Nat} (N : Nesting n)

def parent (i : Fin n) : Option (Fin n) := N.parents.get i

def depth (i : Fin n) : Nat := N.depths.get i

theorem depth_le_size (i : Fin n) : N.depth i ≤ n := N.depth_le i

theorem depth_of_parent {i p : Fin n} (h : N.parent i = some p) : N.depth i = N.depth p + 1 := by
  have := N.depth_eq i
  rw [show N.parents.get i = some p from h] at this
  exact this

theorem depth_of_root {i : Fin n} (h : N.parent i = none) : N.depth i = 0 := by
  have := N.depth_eq i
  rw [show N.parents.get i = none from h] at this
  exact this

def roots : List (Fin n) := (List.finRange n).filter fun i => N.parent i = none

def children (p : Fin n) : List (Fin n) := (List.finRange n).filter fun i => N.parent i = some p

theorem mem_roots {i : Fin n} : i ∈ N.roots ↔ N.parent i = none := by simp [roots]

theorem mem_children {p c : Fin n} : c ∈ N.children p ↔ N.parent c = some p := by simp [children]

-- A node and what lies above it, from the inside out.
def ancestors (i : Fin n) : List (Fin n) :=
  i :: match _h : N.parent i with
    | none => []
    | some p => ancestors p
termination_by N.depth i
decreasing_by
  have := N.depth_of_parent _h
  omega

theorem ancestors_of_root {i : Fin n} (h : N.parent i = none) : N.ancestors i = [i] := by
  rw [ancestors]
  split
  · rfl
  · simp_all

theorem ancestors_of_parent {i p : Fin n} (h : N.parent i = some p) :
    N.ancestors i = i :: N.ancestors p := by
  rw [ancestors]
  split
  · simp_all
  · simp_all

theorem mem_ancestors_self (i : Fin n) : i ∈ N.ancestors i := by
  rw [ancestors]
  exact List.mem_cons_self

-- Adds the ancestors of a node to nodes whose own ancestors are there already.
def climbTo (seen : List (Fin n)) (i : Fin n) : List (Fin n) :=
  if i ∈ seen then seen
  else match _h : N.parent i with
    | none => i :: seen
    | some p => i :: climbTo seen p
termination_by N.depth i
decreasing_by
  have := N.depth_of_parent _h
  omega

-- Everything at or above some nodes, each node once.
def upward (nodes : List (Fin n)) : List (Fin n) := nodes.foldl N.climbTo []

section

variable {N}

def IsUpward (seen : List (Fin n)) : Prop := ∀ i ∈ seen, ∀ a ∈ N.ancestors i, a ∈ seen

theorem mem_climbTo {seen : List (Fin n)} (hseen : IsUpward (N := N) seen) (i a : Fin n) :
    a ∈ N.climbTo seen i ↔ a ∈ seen ∨ a ∈ N.ancestors i := by
  fun_induction N.climbTo seen i with
  | case1 i hi => exact ⟨Or.inl, fun h => h.elim id (hseen i hi a)⟩
  | case2 i _ hp => simp [N.ancestors_of_root hp, or_comm]
  | case3 i _ p hp ih =>
    rw [N.ancestors_of_parent hp, List.mem_cons, List.mem_cons, ih]
    exact or_left_comm

theorem ancestors_trans {i a b : Fin n} (ha : a ∈ N.ancestors i) (hb : b ∈ N.ancestors a) :
    b ∈ N.ancestors i := by
  induction hd : N.depth i generalizing i with
  | zero =>
    cases hp : N.parent i with
    | none =>
      rw [N.ancestors_of_root hp, List.mem_singleton] at ha
      exact ha ▸ hb
    | some p =>
      have := N.depth_of_parent hp
      omega
  | succ d ih =>
    cases hp : N.parent i with
    | none =>
      have := N.depth_of_root hp
      omega
    | some p =>
      rw [N.ancestors_of_parent hp, List.mem_cons] at ha ⊢
      rcases ha with rfl | ha
      · rwa [N.ancestors_of_parent hp, List.mem_cons] at hb
      · have := N.depth_of_parent hp
        exact Or.inr (ih ha (by omega))

theorem isUpward_climbTo {seen : List (Fin n)} (hseen : IsUpward (N := N) seen) (i : Fin n) :
    IsUpward (N := N) (N.climbTo seen i) := by
  intro a ha b hb
  rw [mem_climbTo hseen] at ha ⊢
  exact ha.imp (fun h => hseen a h b hb) fun h => ancestors_trans h hb

theorem mem_upward {nodes : List (Fin n)} {a : Fin n} :
    a ∈ N.upward nodes ↔ ∃ i ∈ nodes, a ∈ N.ancestors i := by
  have hfold (nodes seen : List (Fin n)) (hseen : IsUpward (N := N) seen) :
      a ∈ nodes.foldl N.climbTo seen ↔ a ∈ seen ∨ ∃ i ∈ nodes, a ∈ N.ancestors i := by
    induction nodes generalizing seen with
    | nil => simp
    | cons i nodes ih =>
      rw [List.foldl_cons, ih _ (isUpward_climbTo hseen i), mem_climbTo hseen]
      simp [or_assoc]
  rw [upward, hfold nodes [] fun i hi => absurd hi List.not_mem_nil]
  simp

end

def root (i : Fin n) : Fin n :=
  match _h : N.parent i with
  | none => i
  | some p => root p
termination_by N.depth i
decreasing_by
  have := N.depth_of_parent _h
  omega

-- Of the given nodes the deepest one, and of several equally deep ones the last.
def deepest (nodes : List (Fin n)) : Option (Fin n) :=
  nodes.foldl (fun best i => best.elim (some i) fun b =>
    if N.depth b ≤ N.depth i then some i else some b) none

end Nesting

end LoopPragma
