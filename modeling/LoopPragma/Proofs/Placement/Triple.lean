import LoopPragma.Nesting.Walk
import LoopPragma.Placement.Progress

namespace LoopPragma

inductive Ends {ε σ α : Type} (post : α → σ → Prop) (fault : σ → Prop) :
    EStateM.Result ε σ α → Prop
  | ok {a s} (h : post a s) : Ends post fault (.ok a s)
  | error {e s} (h : fault s) : Ends post fault (.error e s)

-- A postcondition on the answer and the last state, and a condition on the state that a fault
-- leaves.
def Triple {ε σ α : Type} (pre : σ → Prop) (x : EStateM ε σ α) (post : α → σ → Prop)
    (fault : σ → Prop) : Prop :=
  ∀ s, pre s → Ends post fault (x s)

-- An invariant of the state, kept by faults too.
def Maintains {ε σ α : Type} (I : σ → Prop) (x : EStateM ε σ α) : Prop := Triple I x (fun _ => I) I

section Rules

variable {ε σ α β : Type} {I pre fault : σ → Prop} {x : EStateM ε σ α} {post : α → σ → Prop}

theorem Ends.mono {fault' : σ → Prop} {post' : α → σ → Prop} {r : EStateM.Result ε σ α}
    (h : Ends post fault r) (hpost : ∀ a s, post a s → post' a s)
    (hfault : ∀ s, fault s → fault' s) : Ends post' fault' r := by
  cases h with
  | ok h => exact .ok (hpost _ _ h)
  | error h => exact .error (hfault _ h)

theorem Triple.mono {pre' fault' : σ → Prop} {post' : α → σ → Prop} (h : Triple pre x post fault)
    (hpre : ∀ s, pre' s → pre s) (hpost : ∀ a s, post a s → post' a s)
    (hfault : ∀ s, fault s → fault' s) : Triple pre' x post' fault' :=
  fun s hs => (h s (hpre s hs)).mono hpost hfault

theorem Triple.trivial (x : EStateM ε σ α) : Triple pre x (fun _ _ => True) fun _ => True := by
  intro s _
  cases x s with
  | ok a s => exact .ok True.intro
  | error e s => exact .error True.intro

theorem Triple.exists_ok (h : Triple pre x post fun _ => False) {s : σ} (hs : pre s) :
    ∃ a t, x s = .ok a t ∧ post a t := by
  have hend := h s hs
  generalize x s = r at hend
  cases hend with
  | ok h => exact ⟨_, _, rfl, h⟩
  | error h => exact h.elim

theorem bind_of_ok {k : α → EStateM ε σ β} {s t : σ} {a : α} (h : x s = .ok a t) :
    (x >>= k) s = k a t := by
  simp only [bind, EStateM.bind, h]

theorem Triple.of_fact {P : Prop} (h : P → Triple pre x post fault) :
    Triple (fun s => pre s ∧ P) x post fault :=
  fun s hs => h hs.2 s hs.1

theorem Triple.pure {a : α} (h : ∀ s, pre s → post a s) :
    Triple pre (Pure.pure a : EStateM ε σ α) post fault :=
  fun s hs => .ok (h s hs)

theorem Triple.bind {mid : α → σ → Prop} {post : β → σ → Prop} {f : α → EStateM ε σ β}
    (hx : Triple pre x mid fault) (hf : ∀ a, Triple (mid a) (f a) post fault) :
    Triple pre (x >>= f) post fault := by
  intro s hs
  have h := hx s hs
  simp only [Bind.bind, EStateM.bind]
  generalize x s = u at h
  cases h with
  | ok h => exact hf _ _ h
  | error h => exact .error h

theorem Triple.modify {post : σ → Prop} {f : σ → σ} (h : ∀ s, pre s → post (f s)) :
    Triple pre (modify f : EStateM ε σ PUnit) (fun _ => post) fault :=
  fun s hs => .ok (h s hs)

theorem Triple.modifyGet {f : σ → α × σ} (h : ∀ s, pre s → post (f s).1 (f s).2) :
    Triple pre (modifyGet f : EStateM ε σ α) post fault :=
  fun s hs => .ok (h s hs)

theorem Triple.ite {c : Prop} [Decidable c] {y : EStateM ε σ α} (hx : c → Triple pre x post fault)
    (hy : ¬c → Triple pre y post fault) : Triple pre (if c then x else y) post fault := by
  by_cases hc : c
  · rw [if_pos hc]
    exact hx hc
  · rw [if_neg hc]
    exact hy hc

theorem Triple.forM {f : α → EStateM ε σ PUnit} {xs : List α}
    (h : ∀ a ∈ xs, Triple I (f a) (fun _ => I) fault) :
    Triple I (ForM.forM xs f) (fun _ => I) fault := by
  induction xs with
  | nil => exact .pure fun _ hs => hs
  | cons a xs ih =>
      rw [List.forM_cons]
      refine .bind (h a List.mem_cons_self) fun _ => ih ?_
      intro b hb
      exact h b (List.mem_cons_of_mem _ hb)

theorem Triple.mapM {P : β → Prop} {f : α → EStateM ε σ β} {xs : List α}
    (h : ∀ a ∈ xs, Triple I (f a) (fun b s => I s ∧ P b) fault) :
    Triple I (xs.mapM f) (fun bs s => I s ∧ ∀ b ∈ bs, P b) fault := by
  induction xs with
  | nil => exact .pure fun _ hs => ⟨hs, nofun⟩
  | cons a xs ih =>
      have hrest := ih fun b hb => h b (List.mem_cons_of_mem _ hb)
      rw [List.mapM_cons]
      refine .bind (h a List.mem_cons_self) fun b => .of_fact fun hb => .bind hrest fun bs => ?_
      refine .of_fact fun hbs => .pure fun _ hs => ⟨hs, ?_⟩
      exact List.forall_mem_cons.mpr ⟨hb, hbs⟩

theorem Triple.walk {n : Nat} (N : Nesting n) {visit : Fin n → EStateM ε σ Bool}
    (h : ∀ i, Triple I (visit i) (fun _ => I) fault) (pending : List (Fin n)) :
    Triple I (N.walk visit pending) (fun _ => I) fault := by
  induction pending using Nesting.walk.induct (N := N) with
  | case1 =>
      rw [Nesting.walk]
      exact .pure fun _ hs => hs
  | case2 i pending ihChildren ihPending =>
      rw [Nesting.walk]
      refine .bind (h i) fun goOn => ?_
      cases goOn with
      | true => exact ihChildren
      | false => exact ihPending

theorem Maintains.triple (h : Maintains I x) (hfault : ∀ s, I s → fault s) :
    Triple I x (fun _ => I) fault :=
  h.mono (fun _ hs => hs) (fun _ _ hs => hs) hfault

theorem Maintains.pure (a : α) : Maintains I (Pure.pure a : EStateM ε σ α) :=
  Triple.pure fun _ h => h

theorem Maintains.get : Maintains I (get : EStateM ε σ σ) :=
  fun _ h => .ok h

theorem Maintains.bind {f : α → EStateM ε σ β} (hx : Maintains I x) (hf : ∀ a, Maintains I (f a)) :
    Maintains I (x >>= f) :=
  Triple.bind hx hf

theorem Maintains.ite {c : Prop} [Decidable c] {y : EStateM ε σ α} (hx : c → Maintains I x)
    (hy : ¬c → Maintains I y) : Maintains I (if c then x else y) :=
  Triple.ite hx hy

theorem Maintains.forM {f : α → EStateM ε σ PUnit} {xs : List α}
    (h : ∀ a ∈ xs, Maintains I (f a)) : Maintains I (ForM.forM xs f) :=
  Triple.forM h

theorem Maintains.mapM {f : α → EStateM ε σ β} {xs : List α} (h : ∀ a ∈ xs, Maintains I (f a)) :
    Maintains I (xs.mapM f) := by
  induction xs with
  | nil => exact .pure _
  | cons a xs ih =>
      rw [List.mapM_cons]
      refine .bind (h a List.mem_cons_self) fun _ => .bind (ih ?_) fun _ => .pure _
      intro b hb
      exact h b (List.mem_cons_of_mem _ hb)

theorem Maintains.walk {n : Nat} (N : Nesting n) {visit : Fin n → EStateM ε σ Bool}
    (h : ∀ i, Maintains I (visit i)) (pending : List (Fin n)) :
    Maintains I (N.walk visit pending) :=
  Triple.walk N h pending

end Rules

section EqualOn

variable {ε σ α β : Type} {I : σ → Prop} {x y : EStateM ε σ α}

def EqualOn (I : σ → Prop) (x y : EStateM ε σ α) : Prop := ∀ s, I s → x s = y s

theorem EqualOn.refl (x : EStateM ε σ α) : EqualOn I x x := fun _ _ => rfl

theorem EqualOn.bind_triple {mid : α → σ → Prop} {fault : σ → Prop} {f g : α → EStateM ε σ β}
    (hx : Triple I x mid fault) (hxy : EqualOn I x y) (hfg : ∀ a, EqualOn (mid a) (f a) (g a)) :
    EqualOn I (x >>= f) (y >>= g) := by
  intro s hs
  have hend := hx s hs
  simp only [Bind.bind, EStateM.bind, ← hxy s hs]
  generalize x s = u at hend
  cases hend with
  | ok h => exact hfg _ _ h
  | error h => rfl

theorem EqualOn.bind {f g : α → EStateM ε σ β} (hx : Maintains I x) (hxy : EqualOn I x y)
    (hfg : ∀ a, EqualOn I (f a) (g a)) : EqualOn I (x >>= f) (y >>= g) :=
  .bind_triple hx hxy hfg

theorem EqualOn.ite {c : Prop} [Decidable c] {x' y' : EStateM ε σ α} (h : c → EqualOn I x y)
    (h' : ¬c → EqualOn I x' y') : EqualOn I (if c then x else x') (if c then y else y') := by
  by_cases hc : c
  · simpa only [if_pos hc] using h hc
  · simpa only [if_neg hc] using h' hc

theorem EqualOn.mapM {f g : α → EStateM ε σ β} {xs : List α} (hf : ∀ a ∈ xs, Maintains I (f a))
    (hfg : ∀ a ∈ xs, EqualOn I (f a) (g a)) : EqualOn I (xs.mapM f) (xs.mapM g) := by
  induction xs with
  | nil => exact .refl _
  | cons a xs ih =>
      have hrest : ∀ b ∈ xs, Maintains I (f b) := fun b hb => hf b (List.mem_cons_of_mem _ hb)
      rw [List.mapM_cons, List.mapM_cons]
      refine .bind (hf a List.mem_cons_self) (hfg a List.mem_cons_self) fun _ => ?_
      refine .bind (.mapM hrest) (ih hrest ?_) fun _ => .refl _
      exact fun b hb => hfg b (List.mem_cons_of_mem _ hb)

theorem EqualOn.walk {n : Nat} (N : Nesting n) {f g : Fin n → EStateM ε σ Bool}
    (hf : ∀ i, Maintains I (f i)) (hfg : ∀ i, EqualOn I (f i) (g i)) (pending : List (Fin n)) :
    EqualOn I (N.walk f pending) (N.walk g pending) := by
  induction pending using Nesting.walk.induct (N := N) with
  | case1 =>
      rw [Nesting.walk, Nesting.walk]
      exact .refl _
  | case2 i pending ihChildren ihPending =>
      rw [Nesting.walk, Nesting.walk]
      refine .bind (hf i) (hfg i) fun goOn => ?_
      cases goOn with
      | true => exact ihChildren
      | false => exact ihPending

end EqualOn

section Follows

variable {ε σ α β : Type} {I : σ → Prop} {x : EStateM ε σ α} {y : Except ε α}

-- A computation ends as a plain value says, with the same fault if it is one.
def Follows (I : σ → Prop) (x : EStateM ε σ α) (y : Except ε α) : Prop :=
  ∀ s, I s → match y with
    | .ok a => ∃ u, x s = .ok a u ∧ I u
    | .error e => ∃ u, x s = .error e u

theorem Follows.pure (a : α) : Follows I (Pure.pure a : EStateM ε σ α) (.ok a) :=
  fun s hs => ⟨s, rfl, hs⟩

theorem Follows.of_triple {x : EStateM ε σ PUnit} (h : Triple I x (fun _ => I) fun _ => False) :
    Follows I x (.ok ⟨⟩) := by
  intro s hs
  obtain ⟨_, u, hrun, hu⟩ := h.exists_ok hs
  exact ⟨u, hrun, hu⟩

theorem Follows.bind {f : α → EStateM ε σ β} {g : α → Except ε β} (hx : Follows I x y)
    (hf : ∀ a, Follows I (f a) (g a)) : Follows I (x >>= f) (y >>= g) := by
  intro s hs
  have hstart := hx s hs
  cases y with
  | error e =>
      obtain ⟨u, hrun⟩ := hstart
      refine ⟨u, ?_⟩
      simp only [Bind.bind, EStateM.bind, hrun]
  | ok a =>
      obtain ⟨u, hrun, hu⟩ := hstart
      rw [bind_of_ok hrun]
      exact hf a u hu

theorem Follows.walk {n : Nat} (N : Nesting n) {P : Fin n → Prop} {f : Fin n → EStateM ε σ Bool}
    {g : Fin n → Except ε Bool} (h : ∀ i, P i → Follows I (f i) (g i))
    (hchildren : ∀ i, P i → ∀ c ∈ N.children i, P c) (pending : List (Fin n))
    (hpending : ∀ i ∈ pending, P i) : Follows I (N.walk f pending) (N.walk g pending) := by
  induction pending using Nesting.walk.induct (N := N) with
  | case1 =>
      rw [Nesting.walk, Nesting.walk]
      exact .pure _
  | case2 i pending ihChildren ihPending =>
      have hi : P i := hpending i List.mem_cons_self
      have hrest : ∀ j ∈ pending, P j := fun j hj => hpending j (List.mem_cons_of_mem _ hj)
      rw [Nesting.walk, Nesting.walk]
      refine .bind (h i hi) fun goOn => ?_
      cases goOn with
      | false => exact ihPending hrest
      | true =>
          apply ihChildren
          intro j hj
          rcases List.mem_append.mp hj with hc | hj
          · exact hchildren i hi j hc
          · exact hrest j hj

end Follows

def lastState {ε σ α : Type} : EStateM.Result ε σ α → σ
  | .ok _ s => s
  | .error _ s => s

theorem Triple.lastState {ε σ α : Type} {pre I : σ → Prop} {x : EStateM ε σ α}
    (h : Triple pre x (fun _ => I) I) {s : σ} (hs : pre s) : I (lastState (x s)) := by
  have hend := h s hs
  generalize x s = r at hend
  cases hend with
  | ok h => exact h
  | error h => exact h

theorem Maintains.lastState {ε σ α : Type} {I : σ → Prop} {x : EStateM ε σ α} (h : Maintains I x)
    {s : σ} (hs : I s) : I (lastState (x s)) :=
  Triple.lastState h hs

theorem Triple.ask {σ α : Type} {pre fault : Progress σ → Prop} {post : α → Progress σ → Prop}
    {q : Consult σ α}
    (hok : ∀ s, pre s → ∀ a state, q s.state = .ok a state → post a { s with state })
    (herror : ∀ s, pre s → ∀ state, fault { s with state }) :
    Triple pre (Place.ask q) post fault := by
  intro s hs
  simp only [Place.ask]
  cases hq : q s.state with
  | ok a state => exact .ok (hok s hs a state hq)
  | error e state => exact .error (herror s hs state)

namespace Place

variable {σ α : Type}

def after (x : Place σ α) (s : Progress σ) : Progress σ :=
  match x s with
  | .ok _ t => t
  | .error _ t => t

theorem after_of_triple {pre I : Progress σ → Prop} {x : Place σ α}
    (h : Triple pre x (fun _ => I) I) {s : Progress σ} (hs : pre s) : I (x.after s) := by
  have hlast : x.after s = lastState (x s) := by
    rw [after]
    cases x s <;> rfl
  rw [hlast]
  exact h.lastState hs

theorem after_of_maintains {I : Progress σ → Prop} {x : Place σ α} (h : Maintains I x)
    {s : Progress σ} (hs : I s) : I (x.after s) :=
  after_of_triple h hs

end Place

end LoopPragma
