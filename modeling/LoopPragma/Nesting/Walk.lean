import LoopPragma.Nesting.Basic

namespace LoopPragma.Nesting

variable {n : Nat} (N : Nesting n)

def subtreeSize (i : Fin n) : Nat :=
  1 + (N.children i).attach.foldr (fun c size => subtreeSize c.1 + size) 0
termination_by n - N.depth i
decreasing_by
  have := N.depth_of_parent (N.mem_children.1 c.2)
  have := N.depth_le_size c.1
  omega

def forestSize (nodes : List (Fin n)) : Nat := nodes.foldr (fun i size => N.subtreeSize i + size) 0

theorem subtreeSize_eq (i : Fin n) : N.subtreeSize i = 1 + N.forestSize (N.children i) := by
  rw [subtreeSize, forestSize, List.foldr_attach (f := fun c size => N.subtreeSize c + size)]

theorem forestSize_cons (i : Fin n) (nodes : List (Fin n)) :
    N.forestSize (i :: nodes) = N.subtreeSize i + N.forestSize nodes := rfl

theorem forestSize_append (nodes nodes' : List (Fin n)) :
    N.forestSize (nodes ++ nodes') = N.forestSize nodes + N.forestSize nodes' := by
  induction nodes with
  | nil => simp [forestSize]
  | cons i nodes ih =>
    rw [List.cons_append, N.forestSize_cons, N.forestSize_cons, ih]
    omega

-- Visits the pending nodes in order. Where `visit` says to go on, the children come next.
def walk {m : Type → Type} [Monad m] (visit : Fin n → m Bool) : List (Fin n) → m PUnit
  | [] => pure ⟨⟩
  | i :: pending => do
    if ← visit i then walk visit (N.children i ++ pending) else walk visit pending
termination_by pending => N.forestSize pending
decreasing_by
  all_goals simp only [N.forestSize_cons, N.forestSize_append, N.subtreeSize_eq i]
  all_goals omega

-- The pending nodes that pass the test and everything below them that can be reached through such
-- nodes only, each before what lies below it.
def prune (keep : Fin n → Bool) : List (Fin n) → List (Fin n)
  | [] => []
  | i :: pending =>
    if keep i then i :: prune keep (N.children i ++ pending) else prune keep pending
termination_by pending => N.forestSize pending
decreasing_by
  all_goals simp only [N.forestSize_cons, N.forestSize_append, N.subtreeSize_eq i]
  all_goals omega

-- A level and the levels below it, as many as the fuel allows.
def levels : Nat → List (Fin n) → List (Fin n)
  | 0, _ => []
  | fuel + 1, level => level ++ levels fuel (level.flatMap N.children)

-- A node and everything below it, level by level. No level lies deeper than the number of nodes.
def nest (i : Fin n) : List (Fin n) := N.levels (n + 1) [i]

-- The last one on the way up from a node that passes the test.
def topmost (test : Fin n → Bool) (i : Fin n) : Option (Fin n) :=
  ((N.ancestors i).filter test).getLast?

-- What the climbs from some nodes end at, each once. A nest that was ended at is covered: no climb
-- begins or ends in it again.
def topmosts (test : Fin n → Bool) (covered : List (Fin n)) : List (Fin n) → List (Fin n)
  | [] => []
  | i :: nodes =>
    if covered.contains i then topmosts test covered nodes
    else match N.topmost test i with
      | none => topmosts test covered nodes
      | some top =>
        if covered.contains top then topmosts test covered nodes
        else top :: topmosts test (N.nest top ++ covered) nodes

end LoopPragma.Nesting
