import LoopPragma.Model.Function

namespace LoopPragma

structure Program where
  functions : List Function
  nodup : (functions.map Function.name).Nodup

namespace Program

-- The first name that has come before, either among `seen` or earlier in the list.
def firstRepeat? (seen : List String) : List String → Option String
  | [] => none
  | name :: names => if name ∈ seen then some name else firstRepeat? (name :: seen) names

theorem firstRepeat?_eq_none_iff {seen names : List String} :
    firstRepeat? seen names = none ↔ names.Nodup ∧ ∀ name ∈ names, name ∉ seen := by
  induction names generalizing seen with
  | nil => simp [firstRepeat?]
  | cons name names ih =>
    by_cases h : name ∈ seen
    · simp [firstRepeat?, h]
    · simp only [firstRepeat?, h, if_false, ih, List.nodup_cons, List.mem_cons, not_or,
        forall_eq_or_imp, not_false_eq_true, true_and]
      constructor
      · rintro ⟨hn, hs⟩
        exact ⟨⟨fun hm => (hs name hm).1 rfl, hn⟩, fun x hx => (hs x hx).2⟩
      · rintro ⟨⟨hname, hn⟩, hs⟩
        exact ⟨hn, fun x hx => ⟨fun e => hname (e ▸ hx), hs x hx⟩⟩

-- All functions are checked before their names are compared.
def ofDraft (d : ProgramDraft) : Except ModelError Program :=
  match d.functions.mapM Function.ofDraft with
  | .error e => .error e
  | .ok functions =>
    match h : firstRepeat? [] (functions.map Function.name) with
    | some name => .error ⟨name, .repeatedFunction⟩
    | none => .ok ⟨functions, (firstRepeat?_eq_none_iff.1 h).1⟩

def find? (p : Program) (name : String) : Option Function := p.functions.find? (·.name = name)

end Program

end LoopPragma
