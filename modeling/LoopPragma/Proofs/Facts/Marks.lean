import LoopPragma.FactTable

namespace LoopPragma

def FunctionFacts.unmarked (facts : FunctionFacts) : FunctionFacts := { facts with analyzed := ∅ }

@[simp] theorem FunctionFacts.unmarked_unmarked (facts : FunctionFacts) :
    facts.unmarked.unmarked = facts.unmarked := rfl

namespace FactTable

def unmarked (t : FactTable) : FactTable := ⟨t.functions.map fun _ facts => facts.unmarked⟩

theorem ext_getElem? {t u : FactTable}
    (h : ∀ name : String, t.functions[name]? = u.functions[name]?) : t = u := by
  cases t
  cases u
  exact congrArg mk (Std.ExtTreeMap.ext_getElem? h)

@[simp] theorem getElem?_unmarked (t : FactTable) (name : String) :
    t.unmarked.functions[name]? = t.functions[name]?.map FunctionFacts.unmarked := by
  simp [unmarked, Std.ExtTreeMap.getElem?_map]

@[simp] theorem factsOf_unmarked (t : FactTable) (f : Function) :
    t.unmarked.factsOf f = (t.factsOf f).map FunctionFacts.unmarked := getElem?_unmarked t f.name

@[simp] theorem unmarked_unmarked (t : FactTable) : t.unmarked.unmarked = t.unmarked := by
  apply ext_getElem?
  intro name
  simp [Function.comp_def]

variable {t u : FactTable} {f : Function} {r : RegionId}

section Questions

variable (t f r)

theorem reducedForm_unmarked : t.unmarked.reducedForm f r = t.reducedForm f r := by
  cases h : t.factsOf f <;> simp [reducedForm, h, FunctionFacts.unmarked]

theorem isSafe_unmarked : t.unmarked.isSafe f r = t.isSafe f r := by
  cases h : t.factsOf f <;> simp [isSafe, h, FunctionFacts.unmarked]

theorem lines_unmarked : t.unmarked.lines f r = t.lines f r := by
  cases h : t.factsOf f <;> simp [lines, h, FunctionFacts.unmarked]

theorem isSafelyNested_unmarked : t.unmarked.isSafelyNested f r = t.isSafelyNested f r := by
  cases h : t.factsOf f <;> simp [isSafelyNested, h, FunctionFacts.unmarked]

theorem extractLoop_unmarked (computation : String) (lp : LoopId) :
    t.unmarked.extractLoop f computation lp = t.extractLoop f computation lp := by
  cases h : t.factsOf f <;> simp [extractLoop, h, FunctionFacts.unmarked]

theorem extractRegion_unmarked (computation : String) :
    t.unmarked.extractRegion f computation r = t.extractRegion f computation r := by
  cases h : t.factsOf f <;> simp [extractRegion, h, FunctionFacts.unmarked]

end Questions

-- Whether an attached region is complete does not depend on the marks.
theorem isComplete_unmarked {i : f.RegionIx} (h : f.isDetached i = false) :
    t.unmarked.isComplete f (f.regionId i) = t.isComplete f (f.regionId i) := by
  cases hf : t.factsOf f <;>
    simp [isComplete, hf, FunctionFacts.unmarked, f.region_regionId, Except.map, h]

theorem factsOf_analyzeReduced {reduced : RegionId} (h : t.reducedForm f r = some reduced) :
    ∃ facts, t.factsOf f = some facts ∧
      (t.analyzeReduced f r).factsOf f =
        some { facts with analyzed := facts.analyzed.insert reduced } := by
  obtain ⟨facts, hfacts, -⟩ := Option.bind_eq_some_iff.mp h
  refine ⟨facts, hfacts, ?_⟩
  rw [factsOf] at hfacts
  simp [analyzeReduced, h, edit, factsOf, hfacts]

@[simp] theorem unmarked_analyzeReduced (t : FactTable) (f : Function) (r : RegionId) :
    (t.analyzeReduced f r).unmarked = t.unmarked := by
  cases h : t.reducedForm f r with
  | none => simp [analyzeReduced, h]
  | some reduced =>
      obtain ⟨facts, hfacts, -⟩ := Option.bind_eq_some_iff.mp h
      rw [factsOf] at hfacts
      apply ext_getElem?
      intro name
      by_cases hname : f.name = name
      · subst hname
        simp [analyzeReduced, h, edit, hfacts, FunctionFacts.unmarked]
      · simp [analyzeReduced, h, edit, Std.ExtTreeMap.getElem?_insert, hname]

-- The reduced form is marked when it is asked about, so older marks do not count either.
theorem isComplete_analyzeReduced {reduced : RegionId} (hsame : t.unmarked = u.unmarked)
    (h : t.reducedForm f r = some reduced) :
    (t.analyzeReduced f r).isComplete f reduced =
      (u.analyzeReduced f r).isComplete f reduced := by
  have hu : u.reducedForm f r = some reduced := by
    rw [← reducedForm_unmarked, ← hsame, reducedForm_unmarked, h]
  obtain ⟨facts, hfacts, hmarked⟩ := factsOf_analyzeReduced h
  obtain ⟨facts', hfacts', hmarked'⟩ := factsOf_analyzeReduced hu
  have hunmarked : facts.unmarked = facts'.unmarked := by
    have hof := congrArg (fun t => t.factsOf f) hsame
    simpa [hfacts, hfacts'] using hof
  have hincomplete : facts.incomplete = facts'.incomplete := by
    simpa [FunctionFacts.unmarked] using congrArg FunctionFacts.incomplete hunmarked
  simp [isComplete, hmarked, hmarked', hincomplete]

end FactTable

end LoopPragma
