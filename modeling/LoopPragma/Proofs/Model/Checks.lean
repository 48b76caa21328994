import LoopPragma.Model.Collect
import LoopPragma.Model.Id

namespace LoopPragma

variable {ε ε' α β : Type}

theorem bind_eq_error {x : Except ε α} {f : α → Except ε β} {e : ε} :
    (x >>= f) = .error e ↔ x = .error e ∨ ∃ a, x = .ok a ∧ f a = .error e := by
  cases x <;> simp [bind, Except.bind]

theorem mapError_ok {f : ε → ε'} {a : α} : (Except.ok a).mapError f = .ok a := rfl

theorem mapError_error {f : ε → ε'} {e : ε} :
    (Except.error e : Except ε α).mapError f = .error (f e) := rfl

theorem mapError_eq_ok {x : Except ε α} {f : ε → ε'} {a : α} :
    x.mapError f = .ok a ↔ x = .ok a := by
  cases x <;> simp [mapError_ok, mapError_error]

theorem mapError_eq_error {x : Except ε α} {f : ε → ε'} {e' : ε'} :
    x.mapError f = .error e' ↔ ∃ e, x = .error e ∧ f e = e' := by
  cases x <;> simp [mapError_ok, mapError_error]

theorem throw_bind {e : ε} {f : α → Except ε β} : ((throw e : Except ε α) >>= f) = .error e := rfl

theorem exists_ok_of_ne_error {x : Except ε α} (h : ∀ e, x ≠ .error e) : ∃ a, x = .ok a := by
  cases x with
  | ok a => exact ⟨a, rfl⟩
  | error e => exact absurd rfl (h e)

theorem eq_ok_get {x : Except ε α} (h : x.toOption.isSome) : x = .ok (x.toOption.get h) := by
  cases x with
  | ok a => rfl
  | error e => cases h

-- The error is that of the first check that fails.
theorem collect_eq_error {n : Nat} {check : Fin n → Except ε α} {e : ε}
    (h : collect n check = .error e) : ∃ i, check i = .error e ∧ ∀ k < i, ∃ a, check k = .ok a := by
  induction n with
  | zero => cases h
  | succ n ih =>
      rw [collect] at h
      split at h
      · rename_i before hbefore
        cases h
        obtain ⟨i, hi, hfirst⟩ := ih hbefore
        exact ⟨_, hi, fun k hk => hfirst ⟨k.val, Nat.lt_trans hk i.isLt⟩ hk⟩
      · rename_i values hvalues
        split at h
        · rename_i last hlast
          cases h
          exact ⟨_, hlast, fun k hk => ⟨_, collect_eq_ok hvalues ⟨k.val, hk⟩⟩⟩
        · cases h

theorem exists_collect_eq_error {n : Nat} {check : Fin n → Except ε α} {e : ε} {i : Fin n}
    (hi : check i = .error e) :
    ∃ k ≤ i, ∃ e', check k = .error e' ∧ collect n check = .error e' := by
  cases hall : collect n check with
  | ok values => cases hi.symm.trans (collect_eq_ok hall i)
  | error e' =>
      obtain ⟨k, hk, hfirst⟩ := collect_eq_error hall
      refine ⟨k, Nat.le_of_not_lt fun hlt => ?_, e', hk, rfl⟩
      obtain ⟨a, ha⟩ := hfirst i hlt
      cases hi.symm.trans ha

theorem collect_eq_error_of_first {n : Nat} {check : Fin n → Except ε α} {e : ε} {i : Fin n}
    (hi : check i = .error e) (hfirst : ∀ k < i, ∃ a, check k = .ok a) :
    collect n check = .error e := by
  obtain ⟨k, hle, e', hk, hall⟩ := exists_collect_eq_error hi
  rcases Nat.lt_or_eq_of_le hle with hlt | heq
  · obtain ⟨a, ha⟩ := hfirst k hlt
    cases hk.symm.trans ha
  · obtain rfl := Fin.ext heq
    rw [hall, Except.error.inj (hk.symm.trans hi)]

theorem listMapM_eq_ok {f : α → Except ε β} {xs : List α} {ys : List β} (h : xs.mapM f = .ok ys) :
    xs.map f = ys.map .ok := by
  induction xs generalizing ys with
  | nil =>
      obtain rfl : [] = ys := by simpa [pure, Except.pure] using h
      rfl
  | cons x xs ih =>
      simp only [List.mapM_cons, bind_eq_ok, pure, Except.pure, Except.ok.injEq] at h
      obtain ⟨y, hy, zs, hzs, rfl⟩ := h
      rw [List.map_cons, List.map_cons, hy, ih hzs]

theorem exists_of_listMapM_eq_ok {f : α → Except ε β} {xs : List α} {ys : List β}
    (h : xs.mapM f = .ok ys) {x : α} (hx : x ∈ xs) : ∃ y ∈ ys, f x = .ok y := by
  have hmem : f x ∈ ys.map Except.ok := listMapM_eq_ok h ▸ List.mem_map_of_mem hx
  obtain ⟨y, hy, he⟩ := List.mem_map.mp hmem
  exact ⟨y, hy, he.symm⟩

theorem listMapM_eq_error {f : α → Except ε β} {xs : List α} {e : ε}
    (h : xs.mapM f = .error e) : ∃ x ∈ xs, f x = .error e := by
  induction xs with
  | nil => simp [pure, Except.pure] at h
  | cons x xs ih =>
      simp only [List.mapM_cons, bind_eq_error] at h
      rcases h with hx | ⟨y, -, hxs | ⟨ys, -, hpure⟩⟩
      · exact ⟨x, List.mem_cons_self, hx⟩
      · obtain ⟨z, hz, he⟩ := ih hxs
        exact ⟨z, List.mem_cons_of_mem _ hz, he⟩
      · simp [pure, Except.pure] at hpure

theorem listMapM_cons_eq_ok {f : α → Except ε β} {x : α} {xs : List α} {ys : List β} :
    (x :: xs).mapM f = .ok ys ↔ ∃ y rest, f x = .ok y ∧ xs.mapM f = .ok rest ∧ ys = y :: rest := by
  simp only [List.mapM_cons, bind_eq_ok, pure, Except.pure, Except.ok.injEq]
  constructor
  · intro ⟨y, hy, rest, hrest, hys⟩
    exact ⟨y, rest, hy, hrest, hys.symm⟩
  · intro ⟨y, rest, hy, hrest, hys⟩
    exact ⟨y, hy, rest, hrest, hys.symm⟩

theorem map_eq_of_listMapM_eq_ok {γ : Type} {f : α → Except ε β} {g : β → γ} {k : α → γ}
    (hfg : ∀ x y, f x = .ok y → g y = k x) {xs : List α} {ys : List β} (h : xs.mapM f = .ok ys) :
    ys.map g = xs.map k := by
  induction xs generalizing ys with
  | nil =>
      obtain rfl : [] = ys := by simpa [pure, Except.pure] using h
      rfl
  | cons x xs ih =>
      obtain ⟨y, rest, hy, hrest, rfl⟩ := listMapM_cons_eq_ok.mp h
      rw [List.map_cons, List.map_cons, hfg x y hy, ih hrest]

theorem eq_ok_of_mem_zip {f : α → Except ε β} {xs : List α} {ys : List β}
    (h : xs.mapM f = .ok ys) {entry : α × β} (hentry : entry ∈ xs.zip ys) :
    f entry.1 = .ok entry.2 := by
  induction xs generalizing ys with
  | nil => cases hentry
  | cons x xs ih =>
      obtain ⟨y, rest, hy, hrest, rfl⟩ := listMapM_cons_eq_ok.mp h
      rw [List.zip_cons_cons] at hentry
      rcases List.mem_cons.mp hentry with rfl | hentry
      · exact hy
      · exact ih hrest hentry

theorem exists_mem_zip_iff {f : α → Except ε β} {xs : List α} {ys : List β}
    (h : xs.mapM f = .ok ys) {y : β} : y ∈ ys ↔ ∃ entry ∈ xs.zip ys, entry.2 = y := by
  have hlength : ys.length ≤ xs.length := by
    have hmap := congrArg List.length (listMapM_eq_ok h)
    simp only [List.length_map] at hmap
    omega
  rw [← List.mem_map, List.map_snd_zip hlength]

theorem listMapM_perm {f : α → Except ε β} {xs xs' : List α} {ys : List β} (hperm : xs.Perm xs')
    (h : xs.mapM f = .ok ys) :
    ∃ ys', xs'.mapM f = .ok ys' ∧ ys.Perm ys' ∧ (xs.zip ys).Perm (xs'.zip ys') := by
  induction hperm generalizing ys with
  | nil => exact ⟨ys, h, .refl _, .refl _⟩
  | cons x _ ih =>
      obtain ⟨y, rest, hy, hrest, rfl⟩ := listMapM_cons_eq_ok.mp h
      obtain ⟨rest', hrest', hys, hzip⟩ := ih hrest
      exact ⟨y :: rest', listMapM_cons_eq_ok.mpr ⟨y, rest', hy, hrest', rfl⟩, hys.cons y,
        hzip.cons (x, y)⟩
  | swap x₁ x₂ xs =>
      obtain ⟨y₂, rest, hy₂, hrest, rfl⟩ := listMapM_cons_eq_ok.mp h
      obtain ⟨y₁, rest, hy₁, hxs, rfl⟩ := listMapM_cons_eq_ok.mp hrest
      have htail := listMapM_cons_eq_ok.mpr ⟨y₂, rest, hy₂, hxs, rfl⟩
      exact ⟨y₁ :: y₂ :: rest, listMapM_cons_eq_ok.mpr ⟨y₁, _, hy₁, htail, rfl⟩, .swap _ _ _,
        .swap _ _ _⟩
  | trans _ _ ih₁ ih₂ =>
      obtain ⟨ys₁, h₁, hys₁, hzip₁⟩ := ih₁ h
      obtain ⟨ys₂, h₂, hys₂, hzip₂⟩ := ih₂ h₁
      exact ⟨ys₂, h₂, hys₁.trans hys₂, hzip₁.trans hzip₂⟩

theorem optionMapM_eq_ok {f : α → Except ε β} {o : Option α} {r : Option β} :
    o.mapM f = .ok r ↔
      (o = none ∧ r = none) ∨ ∃ a b, o = some a ∧ f a = .ok b ∧ r = some b := by
  cases o with
  | none => simp [pure, Except.pure, eq_comm]
  | some a =>
      cases hf : f a with
      | error e => simp [Functor.map, Except.map, hf]
      | ok b => simp [Functor.map, Except.map, hf, eq_comm]

theorem optionMapM_eq_error {f : α → Except ε β} {o : Option α} {e : ε} :
    o.mapM f = .error e ↔ ∃ a, o = some a ∧ f a = .error e := by
  cases o with
  | none => simp [pure, Except.pure]
  | some a => cases hf : f a <;> simp [Functor.map, Except.map, hf]

namespace NodeId

variable {kind : NodeKind}

theorem resolve_eq_ok {id : NodeId kind} {n : Nat} {i : Fin n} :
    id.resolve n = .ok i ↔ id.index = i.val := by
  unfold resolve
  split
  · simp [Fin.ext_iff]
  · rename_i hge
    have := i.isLt
    simp
    omega

theorem resolve_eq_error {id : NodeId kind} {n : Nat} {e : Fault} :
    id.resolve n = .error e ↔ n ≤ id.index ∧ e = ⟨kind, id⟩ := by
  unfold resolve
  by_cases h : id.index < n
  · simp [h, Nat.not_le.mpr h]
  · simp [h, Nat.le_of_not_lt h, eq_comm]

theorem resolveWith_eq_ok {id : NodeId kind} {n : Nat} {i : Fin n} {e' : ε} :
    ((id.resolve n).mapError fun _ => e') = .ok i ↔ id.index = i.val := by
  rw [mapError_eq_ok, resolve_eq_ok]

theorem resolveWith_eq_error {id : NodeId kind} {n : Nat} {e e' : ε} :
    ((id.resolve n).mapError fun _ => e') = .error e ↔ n ≤ id.index ∧ e = e' := by
  rw [mapError_eq_error]
  constructor
  · rintro ⟨fault, hfault, rfl⟩
    exact ⟨(resolve_eq_error.mp hfault).1, rfl⟩
  · rintro ⟨hge, rfl⟩
    exact ⟨_, resolve_eq_error.mpr ⟨hge, rfl⟩, rfl⟩

end NodeId

end LoopPragma
