/-
Matching on a clock that is set to another time.

If the start of the wave and all detections are shifted alike, then all that
matching finds is shifted with them.  What it asks of times of day is which of two
comes first, how much time passes between them and whether one lies in a window;
none of that changes, as long as no split would open beyond the last instant
(`Split.contains_window_of_shifted`).

The two runs are compared offer by offer.  Whatever they have found so far is the
same, at times that are shifted (`Progress.Shifted`); so both take what is offered
next or neither does, and what they write is the same but for the shift
(`Progress.Shifted.offer`).
-/
import ChipTiming.Proofs.Matching.Walk
import ChipTiming.Proofs.Windows

namespace ChipTiming

/-! ### Shifted traces and outcomes -/

/-- The detection at a shifted time. -/
def Detection.shift? (δ : ℤ) (d : Detection) : Option Detection :=
  (d.time.shift? δ).map fun time => { d with time }

/-- The trace with the start of the wave and every detection shifted, if all of these
instants exist. -/
def Trace.shift? (δ : ℤ) (trace : Trace) : Option Trace := do
  let waveStart ← trace.waveStart.shift? δ
  let detections ← trace.detections.mapM (·.shift? δ)
  return { trace with waveStart, detections }

/-- The crossing at a shifted time of day, with its gun and net time as they are. -/
def Passage.shift? (δ : ℤ) : Passage → Option Passage
  | .notVisited => some .notVisited
  | .detected t => (t.time.shift? δ).map fun time => .detected { t with time }
  | .manual t => (t.time.shift? δ).map fun time => .manual { t with time }

/-- The slot with its crossing, if it shows one, at a shifted time of day. -/
def Slot.shift? (δ : ℤ) (slot : Slot) : Option Slot :=
  (slot.passage.shift? δ).map fun passage => { slot with passage }

/-- The outcome with every crossing at a shifted time of day. -/
def Outcome.shift? (δ : ℤ) (o : Outcome) : Option Outcome := do
  let slots ← o.slots.mapM (·.shift? δ)
  return { o with slots }

variable {δ : ℤ}

/-- The second detection is the first one shifted. -/
structure Detection.Shifted (δ : ℤ) (d d' : Detection) : Prop where
  reader : d'.reader = d.reader
  time : d.time.Shifted δ d'.time

/-- The second passage is the first one shifted. -/
inductive Passage.Shifted (δ : ℤ) : Passage → Passage → Prop
  | notVisited : Shifted δ .notVisited .notVisited
  | detected {t t' : Timing} (time : t.time.Shifted δ t'.time) (gunTime : t'.gunTime = t.gunTime)
      (netTime : t'.netTime = t.netTime) : Shifted δ (.detected t) (.detected t')

theorem Passage.Shifted.shift?_eq {x x' : Passage} (h : x.Shifted δ x') : x.shift? δ = some x' := by
  cases h with
  | notVisited => rfl
  | @detected t t' time gunTime netTime =>
      rw [Passage.shift?, time.shift?_eq, Option.map_some, ← gunTime, ← netTime]

theorem forall₂_shifted_of_mapM {ds ds' : List Detection}
    (hleap : ∀ d ∈ ds, d.time.inLeapSecond = false) (h : ds.mapM (·.shift? δ) = some ds') :
    List.Forall₂ (Detection.Shifted δ) ds ds' := by
  induction ds generalizing ds' with
  | nil =>
      obtain rfl : [] = ds' := by simpa using h
      exact .nil
  | cons d ds ih =>
      rw [List.forall_mem_cons] at hleap
      rw [List.mapM_cons] at h
      obtain ⟨d', hd, hrest⟩ := Option.bind_eq_some_iff.mp h
      obtain ⟨rest, hds, hcons⟩ := Option.bind_eq_some_iff.mp hrest
      obtain rfl : d' :: rest = ds' := Option.some.inj hcons
      obtain ⟨time, htime, rfl⟩ := Option.map_eq_some_iff.mp hd
      exact .cons ⟨rfl, .of_shift? hleap.1 htime⟩ (ih hleap.2 hds)

/-! ### Lists side by side -/

section

variable {α β : Type} {R : α → β → Prop} {xs : List α} {ys : List β} {x : α} {y : β}

theorem rel_getElem? (h : List.Forall₂ R xs ys) (k : ℕ) : Option.Rel R xs[k]? ys[k]? := by
  induction h generalizing k with
  | nil => exact .none
  | cons hxy _ ih =>
      cases k with
      | zero => exact .some hxy
      | succ k => exact ih k

theorem forall₂_set (h : List.Forall₂ R xs ys) (hxy : R x y) (k : ℕ) :
    List.Forall₂ R (xs.set k x) (ys.set k y) := by
  induction h generalizing k with
  | nil => exact .nil
  | cons hab hrest ih =>
      cases k with
      | zero => exact .cons hxy hrest
      | succ k => exact .cons hab (ih k)

end

namespace Matching

variable {s s' : Setting} {d d' : Detection} {p p' : Progress} {split : Split} {place : ℕ}

/-! ### One offer -/

/-- The second setting differs from the first by the start of the wave, which is
shifted. -/
structure Setting.Shifted (δ : ℤ) (s s' : Setting) : Prop where
  ceiling : s'.ceiling = s.ceiling
  waveStart : s.waveStart.Shifted δ s'.waveStart
  startPlace : s'.startPlace = s.startPlace

/-- The second progress has found what the first one has, at shifted times. -/
structure Progress.Shifted (δ : ℤ) (p p' : Progress) : Prop where
  passages : List.Forall₂ (Passage.Shifted δ) p.passages p'.passages
  crossing : ∀ id, Option.Rel (Instant.Shifted δ) (p.crossing? id) (p'.crossing? id)
  status : p'.status = p.status

theorem Progress.shifted_initial (count : ℕ) :
    (Progress.initial count).Shifted δ (Progress.initial count) where
  passages := List.forall₂_same.mpr fun _ h => by
    rw [List.eq_of_mem_replicate h]
    exact .notVisited
  crossing _ := .none
  status := rfl

namespace Progress.Shifted

variable (hp : p.Shifted δ p')

include hp

theorem isOpen_eq (split : Split) (place : ℕ) : isOpen p' place split = isOpen p place split := by
  have hpassage := rel_getElem? hp.passages place
  unfold isOpen
  generalize p.passages[place]? = x, p'.passages[place]? = x' at hpassage
  cases hpassage with
  | none => rfl
  | some h => cases h <;> rfl

theorem timingAt? (place : ℕ) : Option.Rel (fun t t' : Timing => t.time.Shifted δ t'.time)
    (p.timingAt? place) (p'.timingAt? place) := by
  have hpassage := rel_getElem? hp.passages place
  unfold Progress.timingAt?
  generalize p.passages[place]? = x, p'.passages[place]? = x' at hpassage
  cases hpassage with
  | none => exact .none
  | some h =>
      cases h with
      | notVisited => exact .none
      | detected time _ _ => exact .some time

theorem lapIsOpen_eq (hd : d.Shifted δ d') (split : Split) :
    lapIsOpen p' split d' = lapIsOpen p split d := by
  unfold lapIsOpen
  cases split.previousLap with
  | none => rfl
  | some previous =>
      have hcrossing := hp.crossing previous
      dsimp only
      generalize p.crossing? previous = t, p'.crossing? previous = t' at hcrossing
      cases hcrossing with
      | none => rfl
      | some h => rw [Option.bind_some, Option.bind_some, h.elapsed_eq hd.time]

/-- What both write if they take what is offered. -/
theorem detected (hs : s.Shifted δ s') (hd : d.Shifted δ d') (split : Split) :
    (Passage.detected (timing s p split d)).Shifted δ (.detected (timing s' p' split d')) := by
  have hgun : (timing s' p' split d').gunTime = (timing s p split d).gunTime := by
    show (s'.waveStart.elapsed d'.time).getD .zero = (s.waveStart.elapsed d.time).getD .zero
    rw [hs.waveStart.elapsed_eq hd.time]
  refine .detected hd.time hgun ?_
  -- Net times run from what each of the two shows of the start.
  unfold timing at hgun ⊢
  dsimp only at hgun ⊢
  rw [hs.startPlace, hgun]
  cases split.isStart with
  | true => rfl
  | false =>
      cases s.startPlace with
      | none => rfl
      | some place =>
          have hstart := hp.timingAt? place
          unfold Progress.timingAt? at hstart
          simp only [Option.bind_some]
          generalize p.passages[place]?.bind Passage.timing? = t,
            p'.passages[place]?.bind Passage.timing? = t' at hstart
          cases hstart with
          | none => rfl
          | some h => simp only [h.elapsed_eq hd.time]

theorem takes_iff (hs : s.Shifted δ s') (hd : d.Shifted δ d')
    (hopens : split.OpensInTime s.waveStart) (hopens' : split.OpensInTime s'.waveStart) :
    Takes s' d' p' split place ↔ Takes s d p split place := by
  unfold Takes isEligible
  rw [hp.status, hp.isOpen_eq, hp.lapIsOpen_eq hd, hd.reader, hs.ceiling,
    Split.contains_window_of_shifted hs.waveStart hd.time hopens hopens']

/-- Both take what is offered, or neither of them does. -/
theorem offer (hs : s.Shifted δ s') (hd : d.Shifted δ d')
    (hopens : split.OpensInTime s.waveStart) (hopens' : split.OpensInTime s'.waveStart)
    (place : ℕ) :
    (offer s d p (split, place)).Shifted δ (offer s' d' p' (split, place)) := by
  have hiff : Takes s' d' p' split place ↔ Takes s d p split place :=
    hp.takes_iff hs hd hopens hopens'
  by_cases htakes : Takes s d p split place
  · rw [offer_of_takes htakes, offer_of_takes (hiff.mpr htakes)]
    refine ⟨forall₂_set hp.passages (hp.detected hs hd split) place, fun id => ?_, rfl⟩
    rw [crossing?_taken, crossing?_taken]
    by_cases hid : id = split.id
    · rw [if_pos hid, if_pos hid]
      exact .some hd.time
    · rw [if_neg hid, if_neg hid]
      exact hp.crossing id
  · rw [offer_of_not_takes htakes, offer_of_not_takes (mt hiff.mp htakes)]
    exact hp

end Progress.Shifted

/-! ### All offers -/

variable {splits : List Split}

theorem Progress.Shifted.offerAll (hp : p.Shifted δ p') (hs : s.Shifted δ s') (hd : d.Shifted δ d')
    (hopens : ∀ split ∈ splits, split.OpensInTime s.waveStart)
    (hopens' : ∀ split ∈ splits, split.OpensInTime s'.waveStart) :
    (offerAll s splits p d).Shifted δ (offerAll s' splits p' d') := by
  unfold Matching.offerAll
  refine List.foldl_rel hp fun entry hentry q q' hq => ?_
  have hmem : entry.1 ∈ splits := List.fst_mem_of_mem_zipIdx hentry
  exact hq.offer hs hd (hopens _ hmem) (hopens' _ hmem) entry.2

theorem shifted_walk {ds ds' : List Detection} (hs : s.Shifted δ s')
    (hreads : List.Forall₂ (Detection.Shifted δ) ds ds')
    (hopens : ∀ split ∈ splits, split.OpensInTime s.waveStart)
    (hopens' : ∀ split ∈ splits, split.OpensInTime s'.waveStart) :
    (walk s splits ds).Shifted δ (walk s' splits ds') := by
  have hsorted : List.Forall₂ (Detection.Shifted δ) (inTimeOrder ds) (inTimeOrder ds') :=
    forall₂_mergeSort hreads fun ha hb => decide_eq_decide.mpr (ha.time.le_iff hb.time).symm
  unfold walk
  exact List.rel_foldl (fun _ _ hp _ _ hd => hp.offerAll hs hd hopens hopens')
    (Progress.shifted_initial splits.length) hsorted

/-- The slots of the second progress show the crossings of the first one, at shifted
times of day. -/
theorem mapM_shift?_slots {xs xs' : List Passage} (h : List.Forall₂ (Passage.Shifted δ) xs xs')
    (vacant : Split → Slot) (splits : List Split) :
    (List.zipWith (fun split passage => { vacant split with passage }) splits xs).mapM
        (Slot.shift? δ) =
      some (List.zipWith (fun split passage => { vacant split with passage }) splits xs') := by
  induction h generalizing splits with
  | nil => simp
  | @cons x x' _ _ hx _ ih =>
      cases splits with
      | nil => rfl
      | cons split splits =>
          have hslot : Slot.shift? δ { vacant split with passage := x } =
              some { vacant split with passage := x' } := by
            rw [Slot.shift?, hx.shift?_eq, Option.map_some]
          rw [List.zipWith_cons_cons, List.zipWith_cons_cons, List.mapM_cons, hslot, ih]
          rfl

/-! ### The outcome -/

/--
**Matching does not depend on what the clock is set to.**  Shift the start of the wave
and all detections by the same amount: then every crossing is found again at its
shifted time of day, with the same gun and net time, no other is, and the status is
the same.  Splits have to open while there are instants, before the shift and after
it; how long they stay open does not matter.
-/
theorem shift?_matchTrace (ceiling : Duration) (trace trace' : Trace) (splits : List Split)
    (start : Option Split) (δ : ℤ) (hwave : trace.waveStart.inLeapSecond = false)
    (hreads : ∀ d ∈ trace.detections, d.time.inLeapSecond = false)
    (hshift : trace.shift? δ = some trace')
    (hopens : ∀ split ∈ splits, split.OpensInTime trace.waveStart)
    (hopens' : ∀ split ∈ splits, split.OpensInTime trace'.waveStart) :
    (matchTrace ceiling trace splits start).shift? δ =
      some (matchTrace ceiling trace' splits start) := by
  obtain ⟨waveStart, hstart, hrest⟩ := Option.bind_eq_some_iff.mp hshift
  obtain ⟨detections, hdetections, htrace⟩ := Option.bind_eq_some_iff.mp hrest
  obtain rfl : { trace with waveStart, detections } = trace' := Option.some.inj htrace
  have hsetting : (Run.of ceiling trace splits start).setting.Shifted δ
      { (Run.of ceiling trace splits start).setting with waveStart } :=
    ⟨rfl, .of_shift? hwave hstart, rfl⟩
  have hwalk :=
    shifted_walk hsetting (forall₂_shifted_of_mapM hreads hdetections) hopens hopens'
  have hslots : (matchTrace ceiling trace splits start).slots.mapM (Slot.shift? δ) =
      some (matchTrace ceiling { trace with waveStart, detections } splits start).slots :=
    mapM_shift?_slots hwalk.passages (Slot.vacant trace) splits
  have hstatus : (matchTrace ceiling { trace with waveStart, detections } splits start).status =
      (matchTrace ceiling trace splits start).status := hwalk.status
  rw [Outcome.shift?, hslots, ← hstatus]
  rfl

/-- The instant that `early` gives, on a clock that is 100.5 s behind. -/
def behind (seconds : Nat) : Instant :=
  ⟨(seconds % 1000 : Nat) - 101, 500000000, by unfold firstSecond lastSecond; omega, by decide⟩

/-- The athlete of `twoLapsTrace` on that clock, by which the race begins before
1970. -/
def twoLapsBehind : Trace :=
  { twoLapsTrace with
    waveStart := behind 0
    detections := [400, 30, 200, 0, 210, 90].map fun t => ⟨⟨1⟩, behind t⟩ }

theorem shift?_twoLaps :
    twoLapsTrace.waveStart.inLeapSecond = false ∧
      (∀ d ∈ twoLapsTrace.detections, d.time.inLeapSecond = false) ∧
      twoLapsTrace.shift? (-100500000000) = some twoLapsBehind ∧
      (∀ split ∈ twoLaps, split.OpensInTime twoLapsTrace.waveStart) ∧
      (∀ split ∈ twoLaps, split.OpensInTime twoLapsBehind.waveStart) ∧
      twoLapsOutcome.shift? (-100500000000) =
        some (matchTrace defaultCeiling twoLapsBehind twoLaps twoLaps.head?) := by
  have hshift : twoLapsTrace.shift? (-100500000000) = some twoLapsBehind := by decide
  have houtcome :
      matchTrace defaultCeiling twoLapsTrace twoLaps twoLaps.head? = twoLapsOutcome := by cbv
  refine ⟨by decide, by decide, hshift, by decide, by decide, ?_⟩
  rw [← houtcome]
  exact shift?_matchTrace defaultCeiling twoLapsTrace twoLapsBehind twoLaps twoLaps.head? _
    (by decide) (by decide) hshift (by decide) (by decide)

end Matching

end ChipTiming
