namespace LoopPragma

variable {ε α β : Type}

theorem bind_eq_ok {x : Except ε α} {f : α → Except ε β} {b : β} :
    (x >>= f) = .ok b ↔ ∃ a, x = .ok a ∧ f a = .ok b := by
  cases x <;> simp [bind, Except.bind]

-- The values of a check at the positions `0, …, n - 1`, or the error at the first that fails.
def collect : (n : Nat) → (Fin n → Except ε α) → Except ε (Vector α n)
  | 0, _ => .ok #v[]
  | n + 1, check =>
    match collect n fun i => check i.castSucc with
    | .error e => .error e
    | .ok values =>
      match check (Fin.last n) with
      | .error e => .error e
      | .ok value => .ok (values.push value)

theorem collect_eq_ok {n : Nat} {check : Fin n → Except ε α} {values : Vector α n}
    (h : collect n check = .ok values) (i : Fin n) : check i = .ok (values.get i) := by
  change check i = .ok values[i]
  induction n with
  | zero => exact i.elim0
  | succ n ih =>
    rw [collect] at h
    split at h
    · cases h
    · rename_i before hbefore
      split at h
      · cases h
      · rename_i value hvalue
        cases h
        rcases Nat.lt_succ_iff_lt_or_eq.1 i.isLt with hi | hi
        · simpa [Vector.getElem_push_lt hi] using ih hbefore ⟨i, hi⟩
        · have hlast : i = Fin.last n := Fin.ext hi
          subst hlast
          simpa using hvalue

end LoopPragma
