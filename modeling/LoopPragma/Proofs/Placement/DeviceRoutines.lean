import LoopPragma.Proofs.Placement.Independence
import LoopPragma.Proofs.Placement.Replay
import LoopPragma.Proofs.Routines.CallPaths

namespace LoopPragma

namespace Job

variable {σ : Type} {j : Job σ}

-- A run adds what can be reached from its extractions, wherever the search was cut off before.
theorem mem_foldl_registered_iff {routines : Routines} (h : j.program.Closed routines)
    (run : List Event) (name : String) :
    name ∈ run.foldl j.registered routines ↔ name ∈ routines ∨ j.settings.family = .acc ∧
      ∃ event ∈ run, ∃ callee ∈ event.callees j.function, j.program.CallPath callee name := by
  induction run generalizing routines with
  | nil => simp
  | cons event run ih =>
      have hstep := h.mem_addRoutines_iff j.settings.family (event.callees j.function) name
      have hclosed : j.program.Closed (j.registered routines event) := h.addRoutines _ _
      rw [List.foldl_cons, ih hclosed, registered, hstep]
      simp only [List.mem_cons, exists_eq_or_imp, or_assoc, ← and_or_left]

end Job

open FactTable

variable {p : Program} {settings : Settings} {t : FactTable}

theorem routines_of_alone {f : Function} {a : Annotations} {shared : Shared FactTable}
    (h : p.alone settings t f = .ok (a, shared)) :
    shared.routines = shared.events.toList.foldl (job settings p f).registered ∅ := by
  rw [Program.alone, Job.annotate] at h
  by_cases hdecl : f.isDeclaration
  · rw [if_pos hdecl] at h
    cases h
    rfl
  · rw [if_neg hdecl] at h
    have hrun := Job.maintains_replays_annotateBody (j := job settings p f)
      (s := { state := t.unmarked }) _ (.refl _)
    generalize (job settings p f).annotateBody _ = result at h hrun
    cases hrun with
    | error => cases h
    | ok hreplays =>
        cases h
        obtain ⟨run, hevents, -, hroutines⟩ := hreplays
        obtain rfl : _ = run := by simpa using hevents
        exact hroutines

-- The registered routines, told from the extractions in the events of the run: those of each
-- function, one function after the other.
theorem Program.routines_reachable {report : Report} {shared : Shared FactTable}
    (h : p.annotate analyses settings { state := t } = .ok report shared) :
    ∃ parts, p.functions.mapM (p.alone settings t) = .ok parts ∧
      shared.events.toList = parts.flatMap (fun part => part.2.events.toList) ∧
      (settings.family ≠ .acc → report.routines = ∅) ∧
      ∀ name, name ∈ report.routines ↔ settings.family = .acc ∧
        ∃ entry ∈ p.functions.zip parts, ∃ event ∈ entry.2.2.events.toList,
          ∃ callee ∈ event.callees entry.1, p.CallPath callee name := by
  have hclosed : p.Closed ({ state := t } : Shared FactTable).routines := Program.closed_empty
  rw [Program.annotate_eq] at h
  rcases mapM_annotate_alone settings (fun _ _ => rfl) hclosed rfl p.functions with
    ⟨maps, after, parts, hx, hparts, hcollected⟩ | ⟨e, after, hx, -⟩
  · rw [hx] at h
    cases h
    have hpart {entry : Function × Annotations × Shared FactTable}
        (hentry : entry ∈ p.functions.zip parts) (name : String) :
        name ∈ entry.2.2.routines ↔ settings.family = .acc ∧
          ∃ event ∈ entry.2.2.events.toList, ∃ callee ∈ event.callees entry.1,
            p.CallPath callee name := by
      rw [routines_of_alone (eq_ok_of_mem_zip hparts hentry)]
      have hregistered := Job.mem_foldl_registered_iff (j := job settings p entry.1)
        Program.closed_empty entry.2.2.events.toList name
      simpa using hregistered
    have hroutines (name : String) : name ∈ shared.routines ↔ settings.family = .acc ∧
        ∃ entry ∈ p.functions.zip parts, ∃ event ∈ entry.2.2.events.toList,
          ∃ callee ∈ event.callees entry.1, p.CallPath callee name := by
      have hempty : name ∉ ({ state := t } : Shared FactTable).routines :=
        Std.ExtTreeSet.not_mem_empty
      rw [hcollected.routines name, or_iff_right hempty]
      constructor
      · rintro ⟨part, hmem, hname⟩
        obtain ⟨entry, hentry, rfl⟩ := (exists_mem_zip_iff hparts).mp hmem
        obtain ⟨hacc, hreached⟩ := (hpart hentry name).mp hname
        exact ⟨hacc, entry, hentry, hreached⟩
      · rintro ⟨hacc, entry, hentry, hreached⟩
        have hmem := (exists_mem_zip_iff hparts).mpr ⟨entry, hentry, rfl⟩
        exact ⟨entry.2, hmem, (hpart hentry name).mpr ⟨hacc, hreached⟩⟩
    refine ⟨parts, hparts, by simpa using hcollected.events, fun hfamily => ?_, hroutines⟩
    apply Std.ExtTreeSet.ext_mem
    intro name
    rw [hroutines name]
    simp [hfamily]
  · rw [hx] at h
    cases h

-- A loop with calls of a function in a cycle of two and of one without a body, and a function that
-- nothing calls.
def callersDraft : ProgramDraft where
  functions := [
    { name := "f"
      blocks := [{ id := ⟨0⟩ }, { id := ⟨1⟩ },
        { id := ⟨2⟩, calls := [{ callee := some "g" }, { callee := some "sqrt" }] }]
      loops := [{ id := ⟨0⟩, header := ⟨1⟩, latch := some ⟨2⟩, blocks := [⟨1⟩, ⟨2⟩],
                  startLine := some 5 }]
      regions := [{ id := ⟨0⟩, blocks := [⟨0⟩, ⟨1⟩, ⟨2⟩] },
        { id := ⟨1⟩, parent := some ⟨0⟩, entering := some ⟨0⟩, blocks := [⟨1⟩, ⟨2⟩] }] },
    { name := "g", blocks := [{ id := ⟨0⟩, calls := [{ callee := some "h" }] }] },
    { name := "h", blocks := [{ id := ⟨0⟩, calls := [{ callee := some "g" }] }] },
    { name := "sqrt", linkage := .declaration },
    { name := "k", blocks := [{ id := ⟨0⟩, calls := [{ callee := some "g" }] }] }]

def callers : Program := (Program.ofDraft callersDraft).toOption.get (by decide +kernel)

def callersFacts : FactTable := edit {} "f" fun facts =>
  { facts with loopExtractions := facts.loopExtractions.insert ⟨0⟩ {} }

-- The function at the far end of the cycle is registered.
theorem callers_routines_reachable :
    ∃ report shared parts,
      callers.annotate analyses {} { state := callersFacts } = .ok report shared ∧
      callers.functions.mapM (callers.alone {} callersFacts) = .ok parts ∧
      (∀ name, name ∈ report.routines ↔
        ∃ entry ∈ callers.functions.zip parts, ∃ event ∈ entry.2.2.events.toList,
          ∃ callee ∈ event.callees entry.1, callers.CallPath callee name) ∧
      "h" ∈ report.routines := by
  have hvalue : (match callers.annotate analyses {} { state := callersFacts } with
    | .ok _ _ => true
    | .error _ _ => false) = true := by decide +kernel
  have hcalled : (match callers.functions.mapM (callers.alone {} callersFacts) with
    | .ok parts => decide (∃ entry ∈ callers.functions.zip parts,
        ∃ event ∈ entry.2.2.events.toList, "g" ∈ event.callees entry.1)
    | .error _ => false) = true := by decide +kernel
  have hpath : callers.CallPath "g" "h" := by
    have hbody : callers.HasBody "h" := by
      unfold Program.HasBody
      decide +kernel
    obtain ⟨g, hg, hname, hdefined, hcall⟩ : ∃ g ∈ callers.functions, g.name = "g" ∧
        (g.linkage = .definition ∧ 0 < g.numBlocks) ∧ "h" ∈ g.callees := by decide +kernel
    rw [← hname]
    exact .call hg ⟨g, hg, rfl, hdefined⟩ (g.mem_callees_iff.mp hcall) (.here hbody)
  cases hrun : callers.annotate analyses {} { state := callersFacts } with
  | error e shared =>
      rw [hrun] at hvalue
      cases hvalue
  | ok report shared =>
      obtain ⟨parts, hparts, -, -, hroutines⟩ := Program.routines_reachable hrun
      simp only [true_and] at hroutines
      rw [hparts] at hcalled
      obtain ⟨entry, hentry, event, hevent, hcallee⟩ := of_decide_eq_true hcalled
      refine ⟨report, shared, parts, rfl, hparts, hroutines, (hroutines "h").mpr ?_⟩
      exact ⟨entry, hentry, event, hevent, "g", hcallee, hpath⟩

end LoopPragma
