import LoopPragma.Nesting.Walk
import LoopPragma.Placement.Progress

namespace LoopPragma

inductive SameOutcome {ε σ τ α : Type} (post : α → σ → τ → Prop) :
    EStateM.Result ε σ α → EStateM.Result ε τ α → Prop
  | ok {a s t} (h : post a s t) : SameOutcome post (.ok a s) (.ok a t)
  | error {e s t} : SameOutcome post (.error e s) (.error e t)

def Agrees {ε σ τ α : Type} (pre : σ → τ → Prop) (x : EStateM ε σ α) (y : EStateM ε τ α)
    (post : α → σ → τ → Prop) : Prop :=
  ∀ s t, pre s t → SameOutcome post (x s) (y t)

def Keeps {ε σ τ α : Type} (R : σ → τ → Prop) (x : EStateM ε σ α) (y : EStateM ε τ α) : Prop :=
  Agrees R x y fun _ => R

section Rules

variable {ε σ τ α β : Type} {R pre : σ → τ → Prop} {x : EStateM ε σ α} {y : EStateM ε τ α}

theorem SameOutcome.mono {post post' : α → σ → τ → Prop} {u : EStateM.Result ε σ α}
    {v : EStateM.Result ε τ α} (h : SameOutcome post u v)
    (hpost : ∀ a s t, post a s t → post' a s t) : SameOutcome post' u v := by
  cases h with
  | ok h => exact .ok (hpost _ _ _ h)
  | error => exact .error

theorem SameOutcome.ok_or_error {post : α → σ → τ → Prop} {u : EStateM.Result ε σ α}
    {v : EStateM.Result ε τ α} (h : SameOutcome post u v) :
    (∃ a s t, u = .ok a s ∧ v = .ok a t ∧ post a s t) ∨
      ∃ e s t, u = .error e s ∧ v = .error e t := by
  cases h with
  | ok h => exact Or.inl ⟨_, _, _, rfl, rfl, h⟩
  | error => exact Or.inr ⟨_, _, _, rfl, rfl⟩

theorem Agrees.mono {pre' : σ → τ → Prop} {post post' : α → σ → τ → Prop}
    (h : Agrees pre x y post) (hpre : ∀ s t, pre' s t → pre s t)
    (hpost : ∀ a s t, post a s t → post' a s t) : Agrees pre' x y post' :=
  fun s t hst => (h s t (hpre s t hst)).mono hpost

theorem Agrees.pure {post : α → σ → τ → Prop} {a : α} (h : ∀ s t, pre s t → post a s t) :
    Agrees pre (Pure.pure a : EStateM ε σ α) (Pure.pure a : EStateM ε τ α) post :=
  fun s t hst => .ok (h s t hst)

theorem Agrees.bind {mid : α → σ → τ → Prop} {post : β → σ → τ → Prop} {f : α → EStateM ε σ β}
    {g : α → EStateM ε τ β} (hx : Agrees pre x y mid) (hf : ∀ a, Agrees (mid a) (f a) (g a) post) :
    Agrees pre (x >>= f) (y >>= g) post := by
  intro s t hst
  have h := hx s t hst
  simp only [Bind.bind, EStateM.bind]
  generalize x s = u at h
  generalize y t = v at h
  cases h with
  | ok h => exact hf _ _ _ h
  | error => exact .error

theorem Agrees.modify {post : σ → τ → Prop} {f : σ → σ} {g : τ → τ}
    (h : ∀ s t, pre s t → post (f s) (g t)) :
    Agrees pre (modify f : EStateM ε σ PUnit) (modify g : EStateM ε τ PUnit) fun _ => post :=
  fun s t hst => .ok (h s t hst)

theorem Agrees.modifyGet {post : α → σ → τ → Prop} {f : σ → α × σ} {g : τ → α × τ}
    (h : ∀ s t, pre s t → (f s).1 = (g t).1 ∧ post (f s).1 (f s).2 (g t).2) :
    Agrees pre (modifyGet f : EStateM ε σ α) (modifyGet g : EStateM ε τ α) post := by
  intro s t hst
  obtain ⟨hanswer, hpost⟩ := h s t hst
  show SameOutcome post (.ok (f s).1 (f s).2) (.ok (g t).1 (g t).2)
  rw [← hanswer]
  exact .ok hpost

theorem Keeps.pure (a : α) :
    Keeps R (Pure.pure a : EStateM ε σ α) (Pure.pure a : EStateM ε τ α) :=
  Agrees.pure fun _ _ h => h

theorem Keeps.bind {f : α → EStateM ε σ β} {g : α → EStateM ε τ β} (hx : Keeps R x y)
    (hf : ∀ a, Keeps R (f a) (g a)) : Keeps R (x >>= f) (y >>= g) :=
  Agrees.bind hx hf

theorem Keeps.ite {c : Prop} [Decidable c] {x' : EStateM ε σ α} {y' : EStateM ε τ α}
    (hx : c → Keeps R x y) (hx' : ¬c → Keeps R x' y') :
    Keeps R (if c then x else x') (if c then y else y') := by
  by_cases hc : c
  · rw [if_pos hc, if_pos hc]
    exact hx hc
  · rw [if_neg hc, if_neg hc]
    exact hx' hc

theorem Keeps.forM {f : α → EStateM ε σ PUnit} {g : α → EStateM ε τ PUnit} {xs : List α}
    (h : ∀ a ∈ xs, Keeps R (f a) (g a)) : Keeps R (ForM.forM xs f) (ForM.forM xs g) := by
  induction xs with
  | nil => exact .pure _
  | cons a xs ih =>
      rw [List.forM_cons, List.forM_cons]
      refine .bind (h a List.mem_cons_self) fun _ => ih ?_
      intro b hb
      exact h b (List.mem_cons_of_mem _ hb)

theorem Keeps.allM {f : α → EStateM ε σ Bool} {g : α → EStateM ε τ Bool} {xs : List α}
    (h : ∀ a ∈ xs, Keeps R (f a) (g a)) : Keeps R (xs.allM f) (xs.allM g) := by
  induction xs with
  | nil => exact .pure _
  | cons a xs ih =>
      refine .bind (h a List.mem_cons_self) fun answer => ?_
      cases answer with
      | true => exact ih fun b hb => h b (List.mem_cons_of_mem _ hb)
      | false => exact .pure _

-- A walk meets only nodes below those that are pending, so the visits need to agree only there.
theorem Keeps.walk {n : Nat} (N : Nesting n) {P : Fin n → Prop} {f : Fin n → EStateM ε σ Bool}
    {g : Fin n → EStateM ε τ Bool} (h : ∀ i, P i → Keeps R (f i) (g i))
    (hchildren : ∀ i, P i → ∀ c ∈ N.children i, P c) (pending : List (Fin n))
    (hpending : ∀ i ∈ pending, P i) : Keeps R (N.walk f pending) (N.walk g pending) := by
  induction pending using Nesting.walk.induct (N := N) with
  | case1 =>
      rw [Nesting.walk, Nesting.walk]
      exact .pure _
  | case2 i pending ihChildren ihPending =>
      have hi : P i := hpending i List.mem_cons_self
      have hrest : ∀ j ∈ pending, P j := fun j hj => hpending j (List.mem_cons_of_mem _ hj)
      rw [Nesting.walk, Nesting.walk]
      refine .bind (h i hi) fun goOn => ?_
      cases goOn with
      | false => exact ihPending hrest
      | true =>
          apply ihChildren
          intro j hj
          rcases List.mem_append.mp hj with hc | hj
          · exact hchildren i hi j hc
          · exact hrest j hj

end Rules

section Questions

variable {σ τ α : Type}

def reading (answer : σ → Except Fault α) : Consult σ α := fun s => ofExcept (answer s) s

theorem Agrees.reading {pre : σ → τ → Prop} {f : σ → Except Fault α} {g : τ → Except Fault α}
    (h : ∀ s t, pre s t → f s = g t) :
    Agrees pre (LoopPragma.reading f) (LoopPragma.reading g) fun a s t =>
      pre s t ∧ f s = .ok a := by
  intro s t hst
  rw [LoopPragma.reading, LoopPragma.reading, ← h s t hst]
  cases hf : f s with
  | ok a => exact .ok ⟨hst, hf⟩
  | error e => exact .error

theorem Agrees.returning {pre : σ → τ → Prop} {f : σ → α} {g : τ → α}
    (h : ∀ s t, pre s t → f s = g t) :
    Agrees pre (do return f (← get) : Consult σ α) (do return g (← get) : Consult τ α)
      fun a s t => pre s t ∧ f s = a := by
  intro s t hst
  show SameOutcome _ (.ok (f s) s) (.ok (g t) t)
  rw [← h s t hst]
  exact .ok ⟨hst, rfl⟩

theorem Agrees.ask {pre : Progress σ → Progress τ → Prop}
    {post : α → Progress σ → Progress τ → Prop} {preState : σ → τ → Prop}
    {postState : α → σ → τ → Prop} {q : Consult σ α} {q' : Consult τ α}
    (hq : Agrees preState q q' postState) (hpre : ∀ s t, pre s t → preState s.state t.state)
    (hpost : ∀ s t, pre s t → ∀ a u v, postState a u v →
      post a { s with state := u } { t with state := v }) :
    Agrees pre (Place.ask q) (Place.ask q') post := by
  intro s t hst
  have h := hq s.state t.state (hpre s t hst)
  have hstates := hpost s t hst
  simp only [Place.ask]
  generalize q s.state = u at h
  generalize q' t.state = v at h
  cases h with
  | ok h => exact .ok (hstates _ _ _ h)
  | error => exact .error

end Questions

end LoopPragma
