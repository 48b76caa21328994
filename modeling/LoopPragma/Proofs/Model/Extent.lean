import LoopPragma.Scope

namespace LoopPragma

instance leftLeaningMaxUInt32 : Std.LawfulOrderLeftLeaningMax UInt32 where
  max_eq_left a b h := by
    show (if a ≤ b then b else a) = a
    by_cases hab : a ≤ b
    · rw [if_pos hab, UInt32.le_antisymm hab h]
    · exact if_neg hab
  max_eq_right a b h := if_pos (UInt32.le_of_lt (UInt32.not_le.mp h))

namespace Function

variable {f : Function} {c p r : f.RegionIx}

theorem toNat_of_lineAfter? {line next : UInt32} (h : lineAfter? line = some next) :
    next.toNat = line.toNat + 1 := by
  unfold lineAfter? at h
  split at h
  · obtain rfl := Option.some.inj h
    rw [UInt32.toNat_add]
    simp only [UInt32.size] at *
    simp
    omega
  · cases h

def ReachesLine (f : Function) (r : f.RegionIx) (line : UInt32) : Prop :=
  ∃ b ∈ f.regionBlocks r, ∃ l ∈ (f.blocks.get b).lines, line ≤ l

theorem ReachesLine.mono {line : UInt32} (h : f.ReachesLine c line)
    (hsub : ∀ b ∈ f.regionBlocks c, b ∈ f.regionBlocks p) : f.ReachesLine p line := by
  obtain ⟨b, hb, hline⟩ := h
  exact ⟨b, hsub b hb, hline⟩

theorem lt_endLine_iff {stop line : UInt32} (h : f.endLine r = some stop) :
    line < stop ↔ f.ReachesLine r line := by
  obtain ⟨last, hlast, hstop⟩ := Option.bind_eq_some_iff.mp h
  obtain ⟨hmem, hmax⟩ := List.max?_eq_some_iff.mp hlast
  have hlt : line < stop ↔ line ≤ last := by
    rw [UInt32.lt_iff_toNat_lt, UInt32.le_iff_toNat_le, toNat_of_lineAfter? hstop]
    omega
  rw [hlt]
  constructor
  · intro hle
    obtain ⟨b, hb, hline⟩ := List.mem_filterMap.mp hmem
    exact ⟨b, hb, last, (List.max?_eq_some_iff.mp hline).1, hle⟩
  · rintro ⟨b, hb, l, hl, hle⟩
    cases hblock : (f.blocks.get b).maxLine with
    | none =>
        rw [Block.maxLine, List.max?_eq_none_iff] at hblock
        rw [hblock] at hl
        cases hl
    | some m =>
        have hlm := (List.max?_eq_some_iff.mp hblock).2 l hl
        have hm := hmax m (List.mem_filterMap.mpr ⟨b, hb, hblock⟩)
        exact UInt32.le_trans hle (UInt32.le_trans hlm hm)

section Span

variable {span : LineSpan} (h : f.debugLines r = some span)
include h

theorem exists_of_debugLines : f.firstLine r = some span.start ∧ ∃ stop next,
    f.endLine r = some stop ∧ lineAfter? span.start = some next ∧ span.stop = max stop next := by
  simp only [debugLines, bind, Option.bind_eq_some_iff, pure, Option.some.injEq] at h
  obtain ⟨start, hstart, stop, hstop, next, hnext, rfl⟩ := h
  exact ⟨hstart, stop, next, hstop, hnext, rfl⟩

-- What lies before the end of a region: all up to its first loop, and all up to an instruction.
theorem lt_stop_iff {line : UInt32} :
    line < span.stop ↔ line ≤ span.start ∨ f.ReachesLine r line := by
  obtain ⟨-, stop, next, hstop, hnext, hspan⟩ := exists_of_debugLines h
  have hmax : line < max stop next ↔ line < stop ∨ line < next := by
    have hle := Std.LawfulOrderSup.max_le_iff stop next line
    rw [← UInt32.not_le, hle, Decidable.not_and_iff_not_or_not, UInt32.not_le, UInt32.not_le]
  have hstart : line < next ↔ line ≤ span.start := by
    rw [UInt32.lt_iff_toNat_lt, UInt32.le_iff_toNat_le, toNat_of_lineAfter? hnext]
    omega
  rw [hspan, hmax, lt_endLine_iff hstop, hstart, or_comm]

theorem start_lt_stop : span.start < span.stop := (lt_stop_iff h).mpr (Or.inl UInt32.le_rfl)

theorem toNat_stop_of_not_reachesLine (hnone : ¬f.ReachesLine r span.start) :
    span.stop.toNat = span.start.toNat + 1 := by
  obtain ⟨-, stop, next, hstop, hnext, hspan⟩ := exists_of_debugLines h
  have hnext := toNat_of_lineAfter? hnext
  have hle : ¬next ≤ stop := by
    rw [← lt_endLine_iff hstop, UInt32.lt_iff_toNat_lt] at hnone
    rw [UInt32.le_iff_toNat_le]
    omega
  rw [hspan, Std.LawfulOrderLeftLeaningMax.max_eq_right stop next hle, hnext]

end Span

theorem firstLine_le {line line' : UInt32} (hsub : ∀ b ∈ f.regionBlocks c, b ∈ f.regionBlocks p)
    (hc : f.firstLine c = some line) (hp : f.firstLine p = some line') : line' ≤ line := by
  apply (List.min?_eq_some_iff.mp hp).2
  obtain ⟨lp, htouching, hline⟩ := List.mem_filterMap.mp (List.min?_eq_some_iff.mp hc).1
  obtain ⟨b, hb, howner⟩ := mem_touchingLoops_iff.mp htouching
  exact List.mem_filterMap.mpr ⟨lp, mem_touchingLoops_iff.mpr ⟨b, hsub b hb, howner⟩, hline⟩

-- A region within another one keeps to its lines exactly if both begin with the same loop or the
-- other has an instruction at or behind the first loop of the first. Otherwise the first has no
-- more than the line of that loop, and the other ends before it.
theorem debugLines_contains_iff {inner outer : LineSpan}
    (hsub : ∀ b ∈ f.regionBlocks c, b ∈ f.regionBlocks p)
    (hc : f.debugLines c = some inner) (hp : f.debugLines p = some outer) :
    outer.start ≤ inner.start ∧
    (outer.contains inner ↔ inner.start = outer.start ∨ f.ReachesLine p inner.start) ∧
    (¬outer.contains inner →
      outer.stop ≤ inner.start ∧ inner.stop.toNat = inner.start.toNat + 1) := by
  have hstart := firstLine_le hsub (exists_of_debugLines hc).1 (exists_of_debugLines hp).1
  have hstop : inner.stop ≤ outer.stop ↔ inner.start < outer.stop := by
    constructor
    · exact UInt32.lt_of_lt_of_le (start_lt_stop hc)
    · intro hlt
      rw [← UInt32.not_lt]
      intro hbeyond
      rcases (lt_stop_iff hc).mp hbeyond with hbehind | hreaches
      · exact UInt32.not_le.mpr hlt hbehind
      · exact UInt32.lt_irrefl _ ((lt_stop_iff hp).mpr (Or.inr (hreaches.mono hsub)))
  have hcontains : outer.contains inner ↔ inner.start < outer.stop := by
    simp [LineSpan.contains, hstart, hstop]
  have hsame : inner.start ≤ outer.start ↔ inner.start = outer.start :=
    ⟨fun hle => UInt32.le_antisymm hle hstart, fun heq => heq ▸ UInt32.le_rfl⟩
  refine ⟨hstart, ?_, fun hout => ?_⟩
  · rw [hcontains, lt_stop_iff hp, hsame]
  · rw [hcontains] at hout
    refine ⟨UInt32.not_lt.mp hout, toNat_stop_of_not_reachesLine hc fun hreaches => hout ?_⟩
    exact (lt_stop_iff hp).mpr (Or.inr (hreaches.mono hsub))

-- Three loops, one after the other, each a region of its own. The third one begins behind all its
-- instructions, as where these were taken from another place of the source.
def lateHeaderDraft : FunctionDraft where
  name := "f"
  blocks := [{ id := ⟨0⟩, lines := [4] }, { id := ⟨1⟩, lines := [5] },
    { id := ⟨2⟩, lines := [7] }, { id := ⟨3⟩, lines := [6] }]
  loops := [
    { id := ⟨0⟩, header := ⟨1⟩, latch := some ⟨1⟩, blocks := [⟨1⟩], startLine := some 5 },
    { id := ⟨1⟩, header := ⟨2⟩, latch := some ⟨2⟩, blocks := [⟨2⟩], startLine := some 7 },
    { id := ⟨2⟩, header := ⟨3⟩, latch := some ⟨3⟩, blocks := [⟨3⟩], startLine := some 9 }]
  regions := [{ id := ⟨0⟩, blocks := [⟨0⟩, ⟨1⟩, ⟨2⟩, ⟨3⟩] },
    { id := ⟨1⟩, parent := some ⟨0⟩, entering := some ⟨1⟩, blocks := [⟨2⟩] },
    { id := ⟨2⟩, parent := some ⟨0⟩, entering := some ⟨2⟩, blocks := [⟨3⟩] }]

def lateHeader : Function := (ofDraft lateHeaderDraft).toOption.get (by decide +kernel)

-- The second loop begins behind the first one, but not behind its own instruction.
theorem lateHeader_second_within :
    let top : lateHeader.RegionIx := ⟨0, by decide +kernel⟩
    let second : lateHeader.RegionIx := ⟨1, by decide +kernel⟩
    (∀ b ∈ lateHeader.regionBlocks second, b ∈ lateHeader.regionBlocks top) ∧
      lateHeader.debugLines second = some ⟨7, 8⟩ ∧ lateHeader.debugLines top = some ⟨5, 8⟩ ∧
      LineSpan.contains ⟨5, 8⟩ ⟨7, 8⟩ := by
  intro top second
  have hsub : ∀ b ∈ lateHeader.regionBlocks second, b ∈ lateHeader.regionBlocks top := by
    decide +kernel
  have hsecond : lateHeader.debugLines second = some ⟨7, 8⟩ := by decide +kernel
  have htop : lateHeader.debugLines top = some ⟨5, 8⟩ := by decide +kernel
  have hreaches : lateHeader.ReachesLine top 7 :=
    ⟨⟨2, by decide +kernel⟩, by decide +kernel, 7, by decide +kernel, UInt32.le_rfl⟩
  obtain ⟨-, hcontains, -⟩ := debugLines_contains_iff hsub hsecond htop
  exact ⟨hsub, hsecond, htop, hcontains.mpr (Or.inr hreaches)⟩

-- The third one begins behind all instructions, so it has a line that the region around it lacks.
theorem lateHeader_third_beyond :
    let top : lateHeader.RegionIx := ⟨0, by decide +kernel⟩
    let third : lateHeader.RegionIx := ⟨2, by decide +kernel⟩
    lateHeader.regions.nesting.parent third = some top ∧
      (∀ b ∈ lateHeader.regionBlocks third, b ∈ lateHeader.regionBlocks top) ∧
      lateHeader.debugLines third = some ⟨9, 10⟩ ∧ lateHeader.debugLines top = some ⟨5, 8⟩ ∧
      ¬LineSpan.contains ⟨5, 8⟩ ⟨9, 10⟩ := by
  decide +kernel

end Function

end LoopPragma
