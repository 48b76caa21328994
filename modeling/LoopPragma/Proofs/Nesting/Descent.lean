import LoopPragma.Proofs.Nesting.Ancestors

namespace LoopPragma.Nesting

variable {n : Nat} (N : Nesting n)

section Recursion

variable {m : Type → Type} [Monad m] (visit : Fin n → m Bool)

-- Visits a node and, where `visit` says to go on, descends from each child in turn.
def descend (i : Fin n) : m PUnit := do
  if ← visit i then
    (N.children i).attach.forM fun c => descend c.1
termination_by n - N.depth i
decreasing_by
  have := N.depth_of_parent (N.mem_children.1 c.2)
  have := N.depth_le_size c.1
  omega

variable [LawfulMonad m]

theorem descend_eq (i : Fin n) :
    N.descend visit i = (do if ← visit i then forM (N.children i) (N.descend visit)) := by
  have hchildren : ((N.children i).attach.forM fun c => N.descend visit c.1) =
      forM (N.children i) (N.descend visit) := by
    have h := List.forM_map (l := (N.children i).attach) (g := Subtype.val)
      (f := N.descend visit)
    rw [List.attach_map_subtype_val] at h
    exact h.symm
  rw [descend, hchildren]

theorem walk_eq_forM_descend (pending : List (Fin n)) :
    N.walk visit pending = forM pending (N.descend visit) := by
  induction pending using walk.induct (N := N) with
  | case1 => simp [walk]
  | case2 i pending ihChildren ihPending =>
      rw [walk, List.forM_cons, descend_eq, bind_assoc]
      congr 1
      funext goOn
      cases goOn with
      | false => simpa using ihPending
      | true => simpa [List.forM_append] using ihChildren

theorem walk_singleton (root : Fin n) : N.walk visit [root] = N.descend visit root := by
  rw [walk_eq_forM_descend, List.forM_cons, List.forM_nil]
  exact bind_pure _

end Recursion

-- The nodes that a walk with these nodes pending visits, each with the answer of its visit. A visit
-- without an answer ends the walk.
inductive Itinerary : List (Fin n) → List (Fin n × Option Bool) → Prop
  | done : Itinerary [] []
  | goOn {i pending rest} (h : Itinerary (N.children i ++ pending) rest) :
      Itinerary (i :: pending) ((i, some true) :: rest)
  | turnBack {i pending rest} (h : Itinerary pending rest) :
      Itinerary (i :: pending) ((i, some false) :: rest)
  | fault {i pending} : Itinerary (i :: pending) [(i, none)]

namespace Itinerary

variable {N} {pending : List (Fin n)} {stops : List (Fin n × Option Bool)}

def nodes (stops : List (Fin n × Option Bool)) : List (Fin n) := stops.map Prod.fst

def Complete (stops : List (Fin n × Option Bool)) : Prop := ∀ stop ∈ stops, stop.2 ≠ none

-- Pending nodes lie on different branches, so no node below one of them lies below another.
theorem apart_children_append {i : Fin n} (h : (i :: pending).Pairwise (Apart (N := N))) :
    (N.children i ++ pending).Pairwise (Apart (N := N)) := by
  obtain ⟨hi, hp⟩ := List.pairwise_cons.mp h
  rw [List.pairwise_append]
  refine ⟨?_, hp, ?_⟩
  · apply (nodup_children (N := N) i).imp_of_mem
    intro c d hc hd hne
    exact apart_children hc hd hne
  · intro c hc p hmem
    exact (hi p hmem).of_mem_ancestors (mem_ancestors_of_mem_children hc)

theorem exists_pending (h : Itinerary N pending stops) {r : Fin n} (hr : r ∈ nodes stops) :
    ∃ p ∈ pending, p ∈ N.ancestors r := by
  induction h with
  | done => simp [nodes] at hr
  | @goOn i pending rest _ ih =>
      rcases List.mem_cons.mp hr with rfl | hr
      · exact ⟨_, List.mem_cons_self, N.mem_ancestors_self _⟩
      · obtain ⟨p, hp, hpr⟩ := ih hr
        rcases List.mem_append.mp hp with hc | hp
        · exact ⟨i, List.mem_cons_self,
            ancestors_trans hpr (mem_ancestors_of_mem_children hc)⟩
        · exact ⟨p, List.mem_cons_of_mem _ hp, hpr⟩
  | @turnBack i pending rest _ ih =>
      rcases List.mem_cons.mp hr with rfl | hr
      · exact ⟨_, List.mem_cons_self, N.mem_ancestors_self _⟩
      · obtain ⟨p, hp, hpr⟩ := ih hr
        exact ⟨p, List.mem_cons_of_mem _ hp, hpr⟩
  | @fault i pending =>
      obtain rfl : r = i := by simpa [nodes] using hr
      exact ⟨r, List.mem_cons_self, N.mem_ancestors_self r⟩

theorem notMem_of_apart {i : Fin n} (h : Itinerary N pending stops)
    (hi : ∀ p ∈ pending, i ∉ N.ancestors p ∧ p ∉ N.ancestors i) : i ∉ nodes stops := by
  intro hmem
  obtain ⟨p, hp, hpi⟩ := h.exists_pending hmem
  exact (hi p hp).2 hpi

theorem nodup_nodes (h : Itinerary N pending stops) (hp : pending.Pairwise (Apart (N := N))) :
    (nodes stops).Nodup := by
  induction h with
  | done => exact List.nodup_nil
  | @goOn i pending rest h ih =>
      refine List.nodup_cons.mpr ⟨?_, ih (apart_children_append hp)⟩
      intro hmem
      obtain ⟨p, hmem, hpi⟩ := h.exists_pending hmem
      rcases List.mem_append.mp hmem with hc | hmem
      · exact notMem_ancestors_of_mem_children hc hpi
      · exact ((List.pairwise_cons.mp hp).1 p hmem).2 hpi
  | turnBack h ih =>
      obtain ⟨hi, hp⟩ := List.pairwise_cons.mp hp
      exact List.nodup_cons.mpr ⟨h.notMem_of_apart hi, ih hp⟩
  | fault => simp [nodes]

theorem goOn_of_mem (h : Itinerary N pending stops) (hp : pending.Pairwise (Apart (N := N)))
    {p a r : Fin n} (hpm : p ∈ pending) (hr : r ∈ nodes stops) (ha : a ∈ N.ancestors r)
    (hne : a ≠ r) (hpa : p ∈ N.ancestors a) : (a, some true) ∈ stops := by
  induction h generalizing p with
  | done => cases hpm
  | @goOn i pending rest h ih =>
      have hi := (List.pairwise_cons.mp hp).1
      rcases List.mem_cons.mp hpm with rfl | hpending
      · by_cases hap : a = p
        · subst a
          exact List.mem_cons_self
        · obtain ⟨c, hc, hca⟩ := exists_child_of_mem_ancestors hpa (Ne.symm hap)
          rcases List.mem_cons.mp hr with rfl | hr
          · exact absurd (ancestors_antisymm ha hpa) hne
          · exact List.mem_cons_of_mem _
              (ih (apart_children_append hp) (List.mem_append_left _ hc) hr hca)
      · rcases List.mem_cons.mp hr with rfl | hr
        · exact absurd (ancestors_trans ha hpa) (hi p hpending).2
        · exact List.mem_cons_of_mem _
            (ih (apart_children_append hp) (List.mem_append_right _ hpending) hr hpa)
  | @turnBack i pending rest h ih =>
      obtain ⟨hi, hp⟩ := List.pairwise_cons.mp hp
      rcases List.mem_cons.mp hr with rfl | hr
      · rcases List.mem_cons.mp hpm with rfl | hpending
        · exact absurd (ancestors_antisymm ha hpa) hne
        · exact absurd (ancestors_trans ha hpa) (hi p hpending).2
      · obtain ⟨q, hq, hqr⟩ := h.exists_pending hr
        rcases List.mem_cons.mp hpm with rfl | hpending
        · exact absurd hqr ((hi q hq).not_both (ancestors_trans ha hpa))
        · exact List.mem_cons_of_mem _ (ih hp hpending hr hpa)
  | @fault i pending =>
      obtain rfl : r = i := by simpa [nodes] using hr
      rcases List.mem_cons.mp hpm with rfl | hpending
      · exact absurd (ancestors_antisymm ha hpa) hne
      · exact absurd (ancestors_trans ha hpa) ((List.pairwise_cons.mp hp).1 p hpending).2

theorem mem_of_goOn (h : Itinerary N pending stops) (hp : pending.Pairwise (Apart (N := N)))
    (hc : Complete stops) {p r : Fin n} (hpm : p ∈ pending) (hpr : p ∈ N.ancestors r)
    (hall : ∀ a ∈ N.ancestors r, a ≠ r → p ∈ N.ancestors a → (a, some true) ∈ stops) :
    r ∈ nodes stops := by
  induction h generalizing p with
  | done => cases hpm
  | @goOn i pending rest h ih =>
      have hi := (List.pairwise_cons.mp hp).1
      have hrestc : Complete rest := fun stop hs => hc stop (List.mem_cons_of_mem _ hs)
      by_cases hri : r = i
      · subst r
        exact List.mem_cons_self
      · apply List.mem_cons_of_mem
        rcases List.mem_cons.mp hpm with rfl | hpending
        · obtain ⟨c, hcm, hcr⟩ := exists_child_of_mem_ancestors hpr (Ne.symm hri)
          refine ih (apart_children_append hp) hrestc (List.mem_append_left _ hcm) hcr ?_
          intro a ha hne hca
          have hap : a ≠ p := by
            rintro rfl
            exact notMem_ancestors_of_mem_children hcm hca
          have hstop := hall a ha hne (ancestors_trans hca (mem_ancestors_of_mem_children hcm))
          exact (List.mem_cons.mp hstop).resolve_left fun he => hap (Prod.mk.inj he).1
        · refine ih (apart_children_append hp) hrestc (List.mem_append_right _ hpending) hpr ?_
          intro a ha hne hpa
          have hai : a ≠ i := by
            rintro rfl
            exact (hi p hpending).2 hpa
          exact (List.mem_cons.mp (hall a ha hne hpa)).resolve_left fun he =>
            hai (Prod.mk.inj he).1
  | @turnBack i pending rest h ih =>
      obtain ⟨hi, hp⟩ := List.pairwise_cons.mp hp
      have hrestc : Complete rest := fun stop hs => hc stop (List.mem_cons_of_mem _ hs)
      have hrest (a : Fin n) (hs : (a, some true) ∈ (i, some false) :: rest) :
          (a, some true) ∈ rest := by simpa using hs
      by_cases hri : r = i
      · subst r
        exact List.mem_cons_self
      · apply List.mem_cons_of_mem
        rcases List.mem_cons.mp hpm with rfl | hpending
        · have hstop := hrest p (hall p hpr (Ne.symm hri) (N.mem_ancestors_self p))
          exact absurd (List.mem_map_of_mem hstop) (h.notMem_of_apart hi)
        · exact ih hp hrestc hpending hpr fun a ha hne hpa => hrest a (hall a ha hne hpa)
  | fault => exact absurd rfl (hc _ List.mem_cons_self)

end Itinerary

section Noting

variable {ε σ : Type}

-- A visit that also notes where it was and what it answered.
def noting (visit : Fin n → EStateM ε σ Bool) (i : Fin n) :
    EStateM ε (σ × List (Fin n × Option Bool)) Bool := fun s =>
  match visit i s.1 with
  | .ok goOn t => .ok goOn (t, s.2 ++ [(i, some goOn)])
  | .error e t => .error e (t, s.2 ++ [(i, none)])

def withNotes {α : Type} (stops : List (Fin n × Option Bool)) :
    EStateM.Result ε σ α → EStateM.Result ε (σ × List (Fin n × Option Bool)) α
  | .ok a t => .ok a (t, stops)
  | .error e t => .error e (t, stops)

-- Taking notes changes nothing else, and the notes are an itinerary. It is complete unless the walk
-- ends in an error.
theorem walk_noting (visit : Fin n → EStateM ε σ Bool) (pending : List (Fin n)) (s : σ)
    (before : List (Fin n × Option Bool)) :
    ∃ stops, Itinerary N pending stops ∧
      N.walk (noting visit) pending (s, before) =
        withNotes (before ++ stops) (N.walk visit pending s) ∧
      (∀ t, N.walk visit pending s = .ok ⟨⟩ t → Itinerary.Complete stops) := by
  induction pending using walk.induct (N := N) generalizing s before with
  | case1 =>
      refine ⟨[], .done, ?_, ?_⟩
      · simp [walk, withNotes, pure, EStateM.pure]
      · simp [Itinerary.Complete]
  | case2 i pending ihChildren ihPending =>
      rw [walk, walk]
      simp only [bind, EStateM.bind, noting]
      cases hv : visit i s with
      | error e t =>
          exact ⟨_, .fault, rfl, by simp⟩
      | ok goOn t =>
          cases goOn with
          | true =>
              obtain ⟨stops, hi, hrun, hc⟩ := ihChildren t (before ++ [(i, some true)])
              refine ⟨_, .goOn hi, by simpa using hrun, ?_⟩
              intro u hu stop hs
              rcases List.mem_cons.mp hs with rfl | hs
              · simp
              · exact hc u (by simpa using hu) stop hs
          | false =>
              obtain ⟨stops, hi, hrun, hc⟩ := ihPending t (before ++ [(i, some false)])
              refine ⟨_, .turnBack hi, by simpa using hrun, ?_⟩
              intro u hu stop hs
              rcases List.mem_cons.mp hs with rfl | hs
              · simp
              · exact hc u (by simpa using hu) stop hs

end Noting

end LoopPragma.Nesting
