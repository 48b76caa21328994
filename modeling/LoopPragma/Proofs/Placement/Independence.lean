import LoopPragma.Proofs.Counts.Sum
import LoopPragma.Proofs.Model.Checks
import LoopPragma.Proofs.Placement.Carryover

namespace LoopPragma

open FactTable

variable {p p' : Program} {settings : Settings} {t : FactTable}

-- A function on its own, with nothing counted, registered or marked before it.
def Program.alone (p : Program) (settings : Settings) (t : FactTable) (f : Function) :
    Except Fault (Annotations × Shared FactTable) :=
  match (job settings p f).annotate { state := t.unmarked } with
  | .ok a shared => .ok (a, shared)
  | .error e _ => .error e

structure Collected (p : Program) (t : FactTable) (before after : Shared FactTable)
    (maps : List Annotations) (parts : List (Annotations × Shared FactTable)) : Prop where
  maps : maps = parts.map Prod.fst
  events : after.events.toList =
    before.events.toList ++ parts.flatMap fun part => part.2.events.toList
  routines : ∀ name, name ∈ after.routines ↔
    name ∈ before.routines ∨ ∃ part ∈ parts, name ∈ part.2.routines
  closed : p.Closed after.routines
  facts : after.state.unmarked = t.unmarked

theorem Collected.cons {before mid after alone : Shared FactTable} {a : Annotations}
    {maps : List Annotations} {parts : List (Annotations × Shared FactTable)}
    (h : Collected p t mid after maps parts)
    (hfirst : Alike p before.routines before.events.toList (Same t) { toShared := mid }
      { toShared := alone }) : Collected p t before after (a :: maps) ((a, alone) :: parts) where
  maps := by rw [h.maps, List.map_cons]
  events := by
    have hevents : mid.events.toList = before.events.toList ++ alone.events.toList := hfirst.events
    rw [h.events, hevents, List.flatMap_cons, List.append_assoc]
  routines := by
    intro name
    have hmid : name ∈ mid.routines ↔ name ∈ before.routines ∨ name ∈ alone.routines :=
      hfirst.routines name
    rw [h.routines, hmid, or_assoc]
    simp
  closed := h.closed
  facts := h.facts

section Calls

variable (settings : Settings)
  (hsame : ∀ routines names, p'.register routines names = p.register routines names)

include hsame

theorem annotate_alone {shared : Shared FactTable} (hclosed : p.Closed shared.routines)
    (hfacts : shared.state.unmarked = t.unmarked) (f : Function) :
    (∃ a after alone, (job settings p f).annotate shared = .ok a after ∧
      p'.alone settings t f = .ok (a, alone) ∧
      Alike p shared.routines shared.events.toList (Same t) { toShared := after }
        { toShared := alone }) ∨
    ∃ e after, (job settings p f).annotate shared = .error e after ∧
      p'.alone settings t f = .error e := by
  have hstart : Alike p shared.routines shared.events.toList (Same t) { toShared := shared }
      { toShared := { state := t.unmarked } } :=
    { annotations := rfl
      computations := rfl
      facts := ⟨hfacts, t.unmarked_unmarked⟩
      events := by simp
      routines := by simp
      closed_before := hclosed
      closed := Program.closed_empty }
  have hrun := agrees_annotate settings hsame f _ _ hstart
  rw [Program.alone]
  rcases hrun.ok_or_error with ⟨a, after, alone, hx, hy, h⟩ | ⟨e, after, alone, hx, hy⟩
  · rw [hx, hy]
    exact Or.inl ⟨a, after, alone, rfl, rfl, h⟩
  · rw [hx, hy]
    exact Or.inr ⟨e, after, rfl, rfl⟩

theorem mapM_annotate_alone {shared : Shared FactTable} (hclosed : p.Closed shared.routines)
    (hfacts : shared.state.unmarked = t.unmarked) (calls : List Function) :
    (∃ maps after parts, (calls.mapM fun f => (job settings p f).annotate) shared = .ok maps after ∧
      calls.mapM (p'.alone settings t) = .ok parts ∧ Collected p t shared after maps parts) ∨
    ∃ e after, (calls.mapM fun f => (job settings p f).annotate) shared = .error e after ∧
      calls.mapM (p'.alone settings t) = .error e := by
  induction calls generalizing shared with
  | nil => exact Or.inl ⟨[], shared, [], rfl, rfl, by simp, by simp, by simp, hclosed, hfacts⟩
  | cons f calls ih =>
      simp only [List.mapM_cons]
      simp only [bind, EStateM.bind, Except.bind]
      rcases annotate_alone settings hsame hclosed hfacts f with
        ⟨a, mid, alone, hx, hy, h⟩ | ⟨e, after, hx, hy⟩
      · have hmid : p.Closed mid.routines := hclosed.union h.closed h.routines
        rw [hx, hy]
        rcases ih hmid h.facts.1 with ⟨maps, after, parts, hxs, hys, hrest⟩ | ⟨e, after, hxs, hys⟩
        · simp only [hxs, hys]
          exact Or.inl ⟨a :: maps, after, (a, alone) :: parts, rfl, rfl, hrest.cons h⟩
        · simp only [hxs, hys]
          exact Or.inr ⟨e, after, rfl, rfl⟩
      · rw [hx, hy]
        exact Or.inr ⟨e, after, rfl, rfl⟩

end Calls

theorem mapM_labelled {ε σ α β γ : Type} (label : α → γ) (x : α → EStateM ε σ β) (as : List α)
    (s : σ) : (as.mapM fun a => return (label a, ← x a)) s =
      match as.mapM x s with
      | .ok bs after => .ok ((as.map label).zip bs) after
      | .error e after => .error e after := by
  induction as generalizing s with
  | nil => rfl
  | cons a as ih =>
      simp only [List.mapM_cons, bind, EStateM.bind, pure, EStateM.pure] at ih ⊢
      cases hx : x a s with
      | error e after => rfl
      | ok b mid =>
          simp only [ih]
          cases hxs : as.mapM x mid with
          | error e after => simp
          | ok bs after => simp

theorem Program.annotate_eq {σ : Type} (p : Program) (A : Analyses σ) (settings : Settings)
    (shared : Shared σ) : p.annotate A settings shared =
      match (p.functions.mapM fun f => Job.annotate ⟨A, settings, p, f⟩) shared with
      | .ok maps after => .ok {
          functions := ((p.functions.map Function.name).zip maps).filter fun entry =>
            !entry.2.isEmpty
          routines := after.routines
          counts := .ofEvents after.events.toList } after
      | .error e after => .error e after := by
  have hrun := mapM_labelled Function.name (fun f => Job.annotate ⟨A, settings, p, f⟩)
    p.functions shared
  rw [Program.annotate]
  simp only [bind, EStateM.bind] at hrun ⊢
  rw [hrun]
  cases (p.functions.mapM fun f => Job.annotate ⟨A, settings, p, f⟩) shared with
  | ok maps after => rfl
  | error e after => rfl

theorem Program.report_eq {σ : Type} (p : Program) (A : Analyses σ) (settings : Settings)
    (state : σ) : p.report A settings state =
      match (p.functions.mapM fun f => Job.annotate ⟨A, settings, p, f⟩) { state } with
      | .ok maps after => .ok ({
          functions := ((p.functions.map Function.name).zip maps).filter fun entry =>
            !entry.2.isEmpty
          routines := after.routines
          counts := .ofEvents after.events.toList }, after.state)
      | .error e _ => .error e := by
  rw [Program.report, Program.annotate_eq]
  cases (p.functions.mapM fun f => Job.annotate ⟨A, settings, p, f⟩) { state } with
  | ok maps after => rfl
  | error e after => rfl

structure Report.Collects (functions : List Function)
    (parts : List (Annotations × Shared FactTable)) (report : Report) : Prop where
  functions : report.functions =
    ((functions.map Function.name).zip (parts.map Prod.fst)).filter fun entry => !entry.2.isEmpty
  external : report.external = ∅
  routines : ∀ name, name ∈ report.routines ↔ ∃ part ∈ parts, name ∈ part.2.routines
  counts : report.counts = Counts.sum (parts.map fun part => .ofEvents part.2.events.toList)

theorem Report.Collects.unique {functions : List Function}
    {parts : List (Annotations × Shared FactTable)} {r r' : Report}
    (h : r.Collects functions parts) (h' : r'.Collects functions parts) : r = r' := by
  have hroutines : r.routines = r'.routines := by
    apply Std.ExtTreeSet.ext_mem
    intro name
    rw [h.routines, h'.routines]
  have hfunctions := h.functions.trans h'.functions.symm
  have hexternal := h.external.trans h'.external.symm
  have hcounts := h.counts.trans h'.counts.symm
  cases r
  cases r'
  congr

theorem Report.Collects.perm {functions functions' : List Function}
    {parts parts' : List (Annotations × Shared FactTable)} {r r' : Report}
    (h : r.Collects functions parts) (h' : r'.Collects functions' parts')
    (hparts : parts.Perm parts') (hzip : (functions.zip parts).Perm (functions'.zip parts')) :
    r.functions.Perm r'.functions ∧ r.external = r'.external ∧ r.routines = r'.routines ∧
      r.counts = r'.counts := by
  refine ⟨?_, h.external.trans h'.external.symm, ?_, ?_⟩
  · rw [h.functions, h'.functions, List.zip_map, List.zip_map]
    exact (hzip.map _).filter _
  · apply Std.ExtTreeSet.ext_mem
    intro name
    rw [h.routines, h'.routines]
    simp only [hparts.mem_iff]
  · rw [h.counts, h'.counts]
    exact Counts.sum_perm (hparts.map _)

theorem Program.alone_congr {u : FactTable} (p : Program) (settings : Settings)
    (h : u.unmarked = t.unmarked) : p.alone settings u = p.alone settings t := by
  funext f
  rw [Program.alone, Program.alone, h]

section Reports

variable (hsame : ∀ routines names, p'.register routines names = p.register routines names)

include hsame

theorem report_of_parts {parts : List (Annotations × Shared FactTable)}
    (hparts : p.functions.mapM (p'.alone settings t) = .ok parts) :
    ∃ report after, p.report analyses settings t = .ok (report, after) ∧
      report.Collects p.functions parts ∧ after.unmarked = t.unmarked := by
  have hclosed : p.Closed ({ state := t } : Shared FactTable).routines := Program.closed_empty
  rw [Program.report_eq]
  rcases mapM_annotate_alone settings hsame hclosed rfl p.functions with
    ⟨maps, after, parts', hx, hy, h⟩ | ⟨e, after, hx, hy⟩
  · obtain rfl : parts' = parts := Except.ok.inj (hy.symm.trans hparts)
    have hevents : after.events.toList = parts'.flatMap fun part => part.2.events.toList := by
      simpa using h.events
    rw [hx]
    refine ⟨_, _, rfl, ?_, h.facts⟩
    exact
      { functions := by rw [h.maps]
        external := rfl
        routines := fun name => by simpa using h.routines name
        counts := by rw [hevents, Counts.ofEvents_flatMap] }
  · rw [hparts] at hy
    cases hy

theorem report_of_fault {e : Fault} (hfault : p.functions.mapM (p'.alone settings t) = .error e) :
    p.report analyses settings t = .error e := by
  have hclosed : p.Closed ({ state := t } : Shared FactTable).routines := Program.closed_empty
  rw [Program.report_eq]
  rcases mapM_annotate_alone settings hsame hclosed rfl p.functions with
    ⟨maps, after, parts, hx, hy, h⟩ | ⟨e', after, hx, hy⟩
  · rw [hfault] at hy
    cases hy
  · rw [hfault] at hy
    cases hy
    rw [hx]

end Reports

theorem unmarked_of_report {report : Report} {u : FactTable}
    (h : p.report analyses settings t = .ok (report, u)) : u.unmarked = t.unmarked := by
  cases hparts : p.functions.mapM (p.alone settings t) with
  | ok parts =>
      obtain ⟨report', u', hrun, -, hu⟩ := report_of_parts (fun _ _ => rfl) hparts
      rw [hrun] at h
      cases h
      exact hu
  | error e =>
      rw [report_of_fault (fun _ _ => rfl) hparts] at h
      cases h

theorem report_congr {u : FactTable} (h : u.unmarked = t.unmarked) :
    (p.report analyses settings u).map Prod.fst = (p.report analyses settings t).map Prod.fst := by
  have halone := p.alone_congr settings h
  cases hparts : p.functions.mapM (p.alone settings t) with
  | ok parts =>
      obtain ⟨report, _, hrun, hreport, -⟩ := report_of_parts (fun _ _ => rfl) hparts
      rw [← halone] at hparts
      obtain ⟨report', _, hrun', hreport', -⟩ := report_of_parts (fun _ _ => rfl) hparts
      rw [hrun, hrun', hreport.unique hreport']
      rfl
  | error e =>
      rw [report_of_fault (fun _ _ => rfl) hparts]
      rw [← halone] at hparts
      rw [report_of_fault (fun _ _ => rfl) hparts]

theorem exists_of_report_eq_error {e : Fault} (h : p.report analyses settings t = .error e) :
    ∃ f ∈ p.functions, p.alone settings t f = .error e := by
  cases hparts : p.functions.mapM (p.alone settings t) with
  | ok parts =>
      obtain ⟨_, _, hrun, -⟩ := report_of_parts (fun _ _ => rfl) hparts
      rw [hrun] at h
      cases h
  | error e' =>
      rw [report_of_fault (fun _ _ => rfl) hparts] at h
      cases h
      exact listMapM_eq_error hparts

theorem exists_report_eq_error {f : Function} {e : Fault} (hf : f ∈ p.functions)
    (h : p.alone settings t f = .error e) : ∃ e', p.report analyses settings t = .error e' := by
  cases hparts : p.functions.mapM (p.alone settings t) with
  | ok parts =>
      obtain ⟨part, -, hpart⟩ := exists_of_listMapM_eq_ok hparts hf
      rw [h] at hpart
      cases hpart
  | error e' => exact ⟨e', report_of_fault (fun _ _ => rfl) hparts⟩

theorem report_perm {report : Report} {u : FactTable} (hperm : p'.functions.Perm p.functions)
    (h : p.report analyses settings t = .ok (report, u)) :
    ∃ report' u', p'.report analyses settings t = .ok (report', u') ∧
      report'.functions.Perm report.functions ∧ report'.external = report.external ∧
      report'.routines = report.routines ∧ report'.counts = report.counts := by
  have hsame (routines : Routines) (names : List String) :
      p.register routines names = p'.register routines names :=
    (Program.register_perm hperm routines names).symm
  cases hparts : p.functions.mapM (p.alone settings t) with
  | ok parts =>
      obtain ⟨report₀, u₀, hrun, hreport, -⟩ := report_of_parts (fun _ _ => rfl) hparts
      rw [hrun] at h
      cases h
      obtain ⟨parts', hparts', hreorder, hzip⟩ := listMapM_perm hperm.symm hparts
      obtain ⟨report', u', hrun', hreport', -⟩ := report_of_parts hsame hparts'
      exact ⟨report', u', hrun', hreport'.perm hreport hreorder.symm hzip.symm⟩
  | error e =>
      rw [report_of_fault (fun _ _ => rfl) hparts] at h
      cases h

-- Any calls in any order, whatever marks earlier runs left: each gives the annotations that the
-- function has on its own, the counts are the saturating sum and the routines the union of those on
-- their own, and a fault arises only where one would arise on its own. Marks do not show in a
-- report and are all that a run changes, so earlier runs under any settings do not show either. The
-- order of the program shows only as the order of the entries.
theorem Program.calls_independent (p : Program) (settings : Settings) (t : FactTable) :
    (∀ calls : List Function,
      (∃ maps after parts,
        (calls.mapM fun f => (job settings p f).annotate) { state := t } = .ok maps after ∧
        calls.mapM (p.alone settings t) = .ok parts ∧ maps = parts.map Prod.fst ∧
        Counts.ofEvents after.events.toList =
          Counts.sum (parts.map fun part => .ofEvents part.2.events.toList) ∧
        (∀ name, name ∈ after.routines ↔ ∃ part ∈ parts, name ∈ part.2.routines) ∧
        after.state.unmarked = t.unmarked) ∨
      ∃ e after,
        (calls.mapM fun f => (job settings p f).annotate) { state := t } = .error e after ∧
        calls.mapM (p.alone settings t) = .error e) ∧
    (∀ earlier report u, p.report analyses earlier t = .ok (report, u) →
      u.unmarked = t.unmarked) ∧
    (∀ u : FactTable, u.unmarked = t.unmarked →
      (p.report analyses settings u).map Prod.fst = (p.report analyses settings t).map Prod.fst) ∧
    ∀ p' : Program, p'.functions.Perm p.functions →
      ∀ report u, p.report analyses settings t = .ok (report, u) →
        ∃ report' u', p'.report analyses settings t = .ok (report', u') ∧
          report'.functions.Perm report.functions ∧ report'.external = report.external ∧
          report'.routines = report.routines ∧ report'.counts = report.counts := by
  refine ⟨?_, ?_, ?_, ?_⟩
  · intro calls
    have hclosed : p.Closed ({ state := t } : Shared FactTable).routines := Program.closed_empty
    rcases mapM_annotate_alone settings (fun _ _ => rfl) hclosed rfl calls with
      ⟨maps, after, parts, hx, hy, h⟩ | hfault
    · have hevents := congrArg Counts.ofEvents h.events
      rw [Counts.ofEvents_append, Counts.ofEvents_flatMap] at hevents
      refine Or.inl ⟨maps, after, parts, hx, hy, h.maps, ?_, ?_, h.facts⟩
      · exact hevents.trans (Counts.zero_add _)
      · intro name
        simpa using h.routines name
    · exact Or.inr hfault
  · intro earlier report u h
    exact unmarked_of_report h
  · intro u h
    exact report_congr h
  · intro p' hperm report u h
    exact report_perm hperm h

end LoopPragma
