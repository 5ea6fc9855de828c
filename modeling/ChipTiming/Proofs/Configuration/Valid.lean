/-
What a configuration without a mistake guarantees.

Validation runs a fixed list of checks and reports the first that finds something,
so a configuration is accepted just if every check finds nothing
(`validate_eq_ok_iff`).  `WellFormed` says the same without checks: which
identifiers are distinct, what its entities refer to, that laps come to an end,
and how many starts an event has.

Each check has a lemma that says when it finds nothing, and
`validate_eq_ok_iff_wellFormed` puts them together.  The checks are not
independent.  Looking a split up by its identifier is looking for it only where
identifiers are distinct, and laps are walked only where every link leads to a
split; the earlier checks are what the lemmas on the later ones assume.
-/
import ChipTiming.Proofs.Configuration.Laps

namespace ChipTiming

theorem firstRepeated?_eq_none_iff {α : Type} [DecidableEq α] {earlier xs : List α} :
    firstRepeated? earlier xs = none ↔ xs.Nodup ∧ ∀ x ∈ xs, x ∉ earlier := by
  induction xs generalizing earlier with
  | nil => simp [firstRepeated?]
  | cons x xs ih =>
      rw [firstRepeated?]
      by_cases hmem : x ∈ earlier
      · simp [hmem]
      · rw [if_neg (by simpa using hmem), ih, List.nodup_cons]
        refine ⟨?_, ?_⟩
        · intro hrest
          obtain ⟨hnodup, hnew⟩ := hrest
          refine ⟨⟨fun hx => hnew x hx (List.mem_cons_self ..), hnodup⟩, ?_⟩
          intro y hy
          rcases List.mem_cons.mp hy with rfl | hy
          · exact hmem
          · exact fun hearlier => hnew y hy (List.mem_cons_of_mem _ hearlier)
        · intro hrest
          obtain ⟨⟨hx, hnodup⟩, hnew⟩ := hrest
          refine ⟨hnodup, fun y hy hmem' => ?_⟩
          rcases List.mem_cons.mp hmem' with rfl | hearlier
          · exact hx hy
          · exact hnew y (List.mem_cons_of_mem _ hy) hearlier

namespace Configuration

variable {c : Configuration} {s : Split}

/-- A split refers to what is there, and its window is not inverted. -/
structure SplitWellFormed (c : Configuration) (s : Split) : Prop where
  event : ∃ e ∈ c.events, e.id = s.event
  reader : ∃ r ∈ c.readers, r.id = s.reader
  window : s.maxTime = .zero ∨ s.minTime ≤ s.maxTime
  /-- The lap before is closed by another split of the same event. -/
  previousLap : ∀ id, s.previousLap = some id →
    id ≠ s.id ∧ ∃ t ∈ c.splits, t.id = id ∧ t.event = s.event

/-- A configuration that scoring can rely on. -/
structure WellFormed (c : Configuration) : Prop where
  eventIds : (c.events.map Event.id).Nodup
  categoryIds : (c.categories.map Category.id).Nodup
  readerIds : (c.readers.map TimeReader.id).Nodup
  splitIds : (c.splits.map Split.id).Nodup
  waveIds : (c.waves.map Wave.id).Nodup
  eventRace : ∀ e ∈ c.events, e.race = c.race.id
  readerRace : ∀ r ∈ c.readers, r.race = c.race.id
  categoryEvent : ∀ k ∈ c.categories, ∃ e ∈ c.events, e.id = k.event
  waveEvent : ∀ w ∈ c.waves, ∃ e ∈ c.events, e.id = w.event
  splits : ∀ s ∈ c.splits, c.SplitWellFormed s
  lapsEnd : ∀ s ∈ c.splits, c.LapsEnd s
  /-- An event has no split at all or one start. -/
  starts : ∀ e ∈ c.events, (∀ s ∈ c.splits, s.event ≠ e.id) ∨
    ∃! s, s ∈ c.splits ∧ s.event = e.id ∧ s.kind = .start

/-! ### When a check finds nothing -/

theorem validate_eq_ok_iff : c.validate = .ok () ↔ ∀ check ∈ c.checks, check = none := by
  unfold validate mistake?
  cases hfound : c.checks.findSome? id with
  | none => exact iff_of_true rfl (List.findSome?_eq_none_iff.mp hfound)
  | some mistake =>
      simp only [reduceCtorEq, false_iff, not_forall]
      obtain ⟨check, hmem, hcheck⟩ := List.exists_of_findSome?_eq_some hfound
      exact ⟨check, hmem, by simp_all⟩

section

variable {α : Type} {entity : Entity} {subject : Subject} {xs : List α} {id : α → Id entity}

theorem repeatedId?_eq_none_iff {ids : List (Id entity)} :
    repeatedId? subject ids = none ↔ ids.Nodup := by
  simp [repeatedId?, firstRepeated?_eq_none_iff]

theorem foreign?_eq_none_iff {race : α → RaceId} :
    (xs.findSome? fun x => c.foreign? subject (id x) (race x)) = none ↔
      ∀ x ∈ xs, race x = c.race.id := by
  simp [foreign?]

theorem dangling?_eq_none_iff {event : α → EventId} :
    (xs.findSome? fun x => c.dangling? subject (id x) (event x)) = none ↔
      ∀ x ∈ xs, ∃ e ∈ c.events, e.id = event x := by
  simp [dangling?]

end

theorem previousLapReason?_eq_none_iff (hids : (c.splits.map Split.id).Nodup)
    {previous : SplitId} :
    c.previousLapReason? s previous = none ↔
      previous ≠ s.id ∧ ∃ t ∈ c.splits, t.id = previous ∧ t.event = s.event := by
  rw [previousLapReason?]
  by_cases hself : previous = s.id
  · simp [hself]
  · rw [if_neg hself]
    cases hfound : c.split? previous with
    | none =>
        have hnone : ¬∃ t ∈ c.splits, t.id = previous ∧ t.event = s.event := by
          rintro ⟨t, ht, hid, -⟩
          rw [(split?_eq_some_iff hids).mpr ⟨ht, hid⟩] at hfound
          cases hfound
        simp [hnone]
    | some found =>
        obtain ⟨hmem, hid⟩ := (split?_eq_some_iff hids).mp hfound
        have hevent : (∃ t ∈ c.splits, t.id = previous ∧ t.event = s.event) ↔
            found.event = s.event := by
          refine ⟨?_, fun h => ⟨found, hmem, hid, h⟩⟩
          rintro ⟨t, ht, htid, htevent⟩
          rwa [List.inj_on_of_nodup_map hids hmem ht (hid.trans htid.symm)]
        rw [hevent]
        by_cases h : found.event = s.event <;> simp [h, hself]

theorem invertedWindow_iff :
    (!s.maxTime.isZero && decide (s.maxTime < s.minTime)) = true ↔
      ¬(s.maxTime = .zero ∨ s.minTime ≤ s.maxTime) := by
  rw [Bool.and_eq_true, Bool.not_eq_true', ← Bool.not_eq_true, Duration.isZero_iff,
    decide_eq_true_eq, not_or, Duration.lt_def, Duration.le_def, Nat.not_le]

theorem splitReason?_eq_none_iff (hids : (c.splits.map Split.id).Nodup) :
    c.splitReason? s = none ↔ c.SplitWellFormed s := by
  rw [splitReason?]
  by_cases hevent : ∃ e ∈ c.events, e.id = s.event
  swap
  · rw [if_pos (by simpa using hevent)]
    simpa using fun h : c.SplitWellFormed s => hevent h.event
  rw [if_neg (by simpa using hevent)]
  by_cases hreader : ∃ r ∈ c.readers, r.id = s.reader
  swap
  · rw [if_pos (by simpa using hreader)]
    simpa using fun h : c.SplitWellFormed s => hreader h.reader
  rw [if_neg (by simpa using hreader)]
  by_cases hwindow : s.maxTime = .zero ∨ s.minTime ≤ s.maxTime
  swap
  · rw [if_pos (invertedWindow_iff.mpr hwindow)]
    simpa using fun h : c.SplitWellFormed s => hwindow h.window
  rw [if_neg (mt invertedWindow_iff.mp (not_not.mpr hwindow)), Option.bind_eq_none_iff]
  refine ⟨?_, ?_⟩
  · intro h
    exact ⟨hevent, hreader, hwindow, fun id hid =>
      (previousLapReason?_eq_none_iff hids).mp (h id hid)⟩
  · intro h id hid
    exact (previousLapReason?_eq_none_iff hids).mpr (h.previousLap id hid)

theorem isStart_iff : s.isStart = true ↔ s.kind = .start := by simp [Split.isStart]

theorem startCount_eq_one_iff (hids : (c.splits.map Split.id).Nodup) {event : EventId} :
    c.startCount event = 1 ↔ ∃! s, s ∈ c.splits ∧ s.event = event ∧ s.kind = .start := by
  have hmem : ∀ s, s ∈ c.splits.filter (fun s => s.event == event && s.isStart) ↔
      s ∈ c.splits ∧ s.event = event ∧ s.kind = .start := by
    intro s
    simp [isStart_iff]
  have hnodup : (c.splits.filter fun s => s.event == event && s.isStart).Nodup :=
    hids.of_map.filter _
  rw [startCount, List.countP_eq_length_filter, List.length_eq_one_iff]
  refine ⟨?_, ?_⟩
  · intro h
    obtain ⟨only, honly⟩ := h
    refine ⟨only, (hmem only).mp (honly ▸ List.mem_singleton_self only), fun s hs => ?_⟩
    have hs' := (hmem s).mpr hs
    rw [honly] at hs'
    exact List.mem_singleton.mp hs'
  · intro h
    obtain ⟨only, honly, hunique⟩ := h
    refine ⟨only, List.perm_singleton.mp ?_⟩
    rw [List.perm_ext_iff_of_nodup hnodup (List.nodup_singleton only)]
    intro s
    rw [hmem, List.mem_singleton]
    exact ⟨hunique s, fun heq => heq ▸ honly⟩

theorem startMistake?_eq_none_iff (hids : (c.splits.map Split.id).Nodup) {e : Event} :
    c.startMistake? e = none ↔ (∀ s ∈ c.splits, s.event ≠ e.id) ∨
      ∃! s, s ∈ c.splits ∧ s.event = e.id ∧ s.kind = .start := by
  have hany : c.splits.any (·.event == e.id) = true ↔ ¬∀ s ∈ c.splits, s.event ≠ e.id := by
    simp
  rw [← startCount_eq_one_iff hids, startMistake?]
  by_cases hsome : ∀ s ∈ c.splits, s.event ≠ e.id
  · rw [Bool.eq_false_iff.mpr (mt hany.mp (not_not.mpr hsome))]
    exact iff_of_true rfl (Or.inl hsome)
  · rw [hany.mpr hsome]
    simp only [Bool.true_and, bne_iff_ne, ne_eq, ite_eq_right_iff, reduceCtorEq, imp_false,
      not_not, hsome, false_or]

/-! ### All checks -/

theorem walks_eq_none_iff (hids : (c.splits.map Split.id).Nodup)
    (hsplits : ∀ s ∈ c.splits, c.SplitWellFormed s) :
    (c.splits.findSome? fun s =>
      if (c.walkLaps [s.id] s.id).ends then none
      else some (⟨.split, s.id.text, .lapCycle⟩ : Misconfiguration)) = none ↔
        ∀ s ∈ c.splits, c.LapsEnd s := by
  have hlinks : ∀ s ∈ c.splits, ∀ id, s.previousLap = some id → ∃ t ∈ c.splits, t.id = id := by
    intro s hs id hid
    obtain ⟨-, t, ht, htid, -⟩ := (hsplits s hs).previousLap id hid
    exact ⟨t, ht, htid⟩
  rw [List.findSome?_eq_none_iff]
  refine forall₂_congr fun s hs => ?_
  simp [← ends_walkLaps_iff hids hlinks hs]

theorem validate_eq_ok_iff_wellFormed : c.validate = .ok () ↔ c.WellFormed := by
  rw [validate_eq_ok_iff]
  simp only [checks, List.forall_mem_cons, repeatedId?_eq_none_iff, foreign?_eq_none_iff,
    dangling?_eq_none_iff]
  refine ⟨?_, ?_⟩
  · intro h
    obtain ⟨heventIds, hcategoryIds, hreaderIds, hsplitIds, hwaveIds, heventRace, hreaderRace,
      hcategoryEvent, hwaveEvent, hreasons, hwalks, hmistakes, -⟩ := h
    have hsplits : ∀ s ∈ c.splits, c.SplitWellFormed s := by
      intro s hs
      rw [← splitReason?_eq_none_iff hsplitIds]
      simpa using List.findSome?_eq_none_iff.mp hreasons s hs
    exact {
      eventIds := heventIds
      categoryIds := hcategoryIds
      readerIds := hreaderIds
      splitIds := hsplitIds
      waveIds := hwaveIds
      eventRace := heventRace
      readerRace := hreaderRace
      categoryEvent := hcategoryEvent
      waveEvent := hwaveEvent
      splits := hsplits
      lapsEnd := (walks_eq_none_iff hsplitIds hsplits).mp hwalks
      starts := fun e he => (startMistake?_eq_none_iff hsplitIds).mp
        (List.findSome?_eq_none_iff.mp hmistakes e he) }
  · intro h
    refine ⟨h.eventIds, h.categoryIds, h.readerIds, h.splitIds, h.waveIds, h.eventRace,
      h.readerRace, h.categoryEvent, h.waveEvent, ?_, (walks_eq_none_iff h.splitIds h.splits).mpr
      h.lapsEnd, ?_, by simp⟩
    · rw [List.findSome?_eq_none_iff]
      intro s hs
      rw [(splitReason?_eq_none_iff h.splitIds).mpr (h.splits s hs), Option.map_none]
    · rw [List.findSome?_eq_none_iff]
      exact fun e he => (startMistake?_eq_none_iff h.splitIds).mpr (h.starts e he)

theorem wellFormed (h : c.validate = .ok ()) : c.WellFormed := validate_eq_ok_iff_wellFormed.mp h

/-- An event has one start. -/
theorem WellFormed.eq_of_isStart (h : c.WellFormed) {s s' : Split} (hs : s ∈ c.splits)
    (hs' : s' ∈ c.splits) (hevent : s.event = s'.event) (hstart : s.isStart = true)
    (hstart' : s'.isStart = true) : s = s' := by
  obtain ⟨e, he, heq⟩ := (h.splits s hs).event
  rcases h.starts e he with hnone | hone
  · exact absurd heq.symm (hnone s hs)
  · exact hone.unique ⟨hs, heq.symm, isStart_iff.mp hstart⟩
      ⟨hs', hevent.symm.trans heq.symm, isStart_iff.mp hstart'⟩

/--
**Validation accepts just the well-formed configurations.**  Every other one is
refused with a mistake, and no walk along the laps of a split follows more links than
there are splits.
-/
theorem validate_iff_wellFormed_and_steps_le (c : Configuration) :
    (c.validate = .ok () ↔ c.WellFormed) ∧
      ((∃ mistake, c.validate = .error mistake) ↔ ¬c.WellFormed) ∧
      ∀ s ∈ c.splits, (c.walkLaps [s.id] s.id).steps ≤ c.splits.length := by
  refine ⟨validate_eq_ok_iff_wellFormed, ?_, fun s hs => steps_walkLaps_le_length hs⟩
  rw [← validate_eq_ok_iff_wellFormed]
  cases c.validate <;> simp

/-- A start, and two laps each of which follows the other. -/
def lapsInCircle : Configuration :=
  let lap (n : BitVec 128) (kind : SplitKind) (previous : Option SplitId) : Split :=
    { id := ⟨n⟩, event := ⟨1⟩, name := "", kind, distance := ⟨0⟩, reader := ⟨1⟩, minTime := .zero
      maxTime := .zero, minLapTime := .zero, previousLap := previous }
  { race := ⟨⟨1⟩, "", ""⟩
    events := [⟨⟨1⟩, ⟨1⟩, "", ⟨0⟩, ⟨2023, 6, 2, by decide, by decide, by decide⟩⟩]
    categories := []
    readers := [⟨⟨1⟩, ⟨1⟩, ""⟩]
    splits := [lap 1 .start none, lap 2 .standard (some ⟨3⟩), lap 3 .finish (some ⟨2⟩)]
    waves := [] }

theorem validate_lapsInCircle :
    lapsInCircle.validate = .error ⟨.split, "00000000-0000-0000-0000-000000000002", .lapCycle⟩ ∧
      ¬lapsInCircle.WellFormed ∧
      ∃ s ∈ lapsInCircle.splits, lapsInCircle.walkLaps [s.id] s.id = ⟨2, false⟩ ∧
        (lapsInCircle.walkLaps [s.id] s.id).steps ≤ lapsInCircle.splits.length := by
  have hvalidate : lapsInCircle.validate =
      .error ⟨.split, "00000000-0000-0000-0000-000000000002", .lapCycle⟩ := by rfl
  obtain ⟨-, hrefused, hwalks⟩ := validate_iff_wellFormed_and_steps_le lapsInCircle
  have hs : lapsInCircle.splits[1] ∈ lapsInCircle.splits := List.getElem_mem _
  exact ⟨hvalidate, hrefused.mp ⟨_, hvalidate⟩, _, hs, rfl, hwalks _ hs⟩

end Configuration

end ChipTiming
