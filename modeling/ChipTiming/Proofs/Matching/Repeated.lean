/-
Detections that are reported twice.

A reader may report a detection once more, at the very same time.  In the order of
time the copy stands right behind the detection, so that all splits are offered it
again as soon as they have been offered it once.  The second round finds other
slots and crossings than the first one did, but whatever takes the detection now
has taken it before.  So it is a start, and what it writes is what its slot shows
already (`HasTaken`).  All that the second round can add is a crossing that is on
the list of crossings, and how often it is there is never read (`Alike`).

What could go wrong is a lap that takes no time.  If the split that opens it stood
behind the one that closes it, then only the second round would find the lap
opened, by the detection itself.  That is why such a lap has to be opened by a
split in front (`LapsTakeTime`).
-/
import ChipTiming.Proofs.Elapsed
import ChipTiming.Proofs.Matching.Walk

namespace ChipTiming.Matching

variable {s : Setting} {d : Detection} {p q x : Progress} {splits : List Split}
  {split other : Split} {place k n : ℕ}

/-! ### What is read of a progress -/

/-- Progresses of which the same is read: lists of crossings may differ in what stands
behind the latest crossing of a split. -/
structure Alike (p q : Progress) : Prop where
  passages : p.passages = q.passages
  crossing : ∀ id, p.crossing? id = q.crossing? id
  status : p.status = q.status

namespace Alike

theorem refl (p : Progress) : Alike p p := ⟨rfl, fun _ => rfl, rfl⟩

theorem trans (hpq : Alike p q) (hqx : Alike q x) : Alike p x where
  passages := hpq.passages.trans hqx.passages
  crossing id := (hpq.crossing id).trans (hqx.crossing id)
  status := hpq.status.trans hqx.status

theorem takes_iff (h : Alike p q) : Takes s d p split place ↔ Takes s d q split place := by
  unfold Takes isEligible lapIsOpen isOpen
  simp only [h.passages, h.crossing, h.status]

theorem timing_eq (h : Alike p q) : timing s p split d = timing s q split d := by
  unfold timing
  rw [h.passages]

/-- What is offered to either of them is taken or refused alike. -/
theorem offer (h : Alike p q) (entry : Split × ℕ) :
    Alike (offer s d p entry) (offer s d q entry) := by
  obtain ⟨split, place⟩ := entry
  by_cases htakes : Takes s d p split place
  · rw [offer_of_takes htakes, offer_of_takes (h.takes_iff.mp htakes)]
    refine ⟨?_, fun id => ?_, rfl⟩
    · rw [taken, taken, h.passages, h.timing_eq]
    · rw [crossing?_taken, crossing?_taken, h.crossing]
  · rw [offer_of_not_takes htakes, offer_of_not_takes (mt h.takes_iff.mpr htakes)]
    exact h

theorem offerAll (h : Alike p q) (d : Detection) :
    Alike (offerAll s splits p d) (offerAll s splits q d) := by
  unfold Matching.offerAll
  exact List.foldl_rel h fun entry _ _ _ halike => halike.offer entry

end Alike

/-! ### The second round -/

/-- A lap that may take no time is closed behind the split that opens it, if that is a
split of the list at all. -/
def LapsTakeTime (splits : List Split) : Prop :=
  ∀ i j : Fin splits.length, (splits.get i).previousLap = some (splits.get j).id →
    j < i ∨ Duration.zero < (splits.get i).minLapTime

instance (splits : List Split) : Decidable (LapsTakeTime splits) :=
  inferInstanceAs (Decidable (∀ i j : Fin splits.length,
    (splits.get i).previousLap = some (splits.get j).id →
      j < i ∨ Duration.zero < (splits.get i).minLapTime))

theorem LapsTakeTime.minLapTime_pos (h : LapsTakeTime splits)
    (hsplit : splits[place]? = some split) (hother : splits[k]? = some other) (hle : place ≤ k)
    (hlink : split.previousLap = some other.id) :
    Duration.zero < split.minLapTime := by
  obtain ⟨hplace, rfl⟩ := List.getElem?_eq_some_iff.mp hsplit
  obtain ⟨hk, rfl⟩ := List.getElem?_eq_some_iff.mp hother
  rcases h ⟨place, hplace⟩ ⟨k, hk⟩ hlink with hlt | hpos
  · exact absurd hlt (by simpa using hle)
  · exact hpos

theorem timing_eq_of_isStart (h : split.isStart = true) (p q : Progress) :
    timing s p split d = timing s q split d := by
  simp [timing, h]

/-- The split at a place is a start that shows a detection as it would write it. -/
structure HasTaken (s : Setting) (d : Detection) (p : Progress) (split : Split) (place : ℕ) :
    Prop where
  isStart : split.isStart = true
  passage : p.passages[place]? = some (.detected (timing s p split d))
  crossing : p.crossing? split.id = some d.time
  status : p.status = .running

/-- Then taking it once more adds nothing that is read. -/
theorem HasTaken.alike (h : HasTaken s d p split place) : Alike (taken s d p split place) p := by
  refine ⟨?_, fun id => ?_, ?_⟩
  · obtain ⟨hplace, hpassage⟩ := List.getElem?_eq_some_iff.mp h.passage
    rw [taken, ← hpassage, List.set_getElem_self]
  · rw [crossing?_taken]
    by_cases hid : id = split.id
    · rw [if_pos hid, hid, h.crossing]
    · rw [if_neg hid]
  · have hfinish : split.isFinish = false := by
      have hkind := h.isStart
      simp only [Split.isStart, beq_iff_eq] at hkind
      simp [Split.isFinish, hkind]
    rw [taken, hfinish, h.status]
    rfl

/-- If the split at a place takes a detection, it has taken it before. -/
def Settled (s : Setting) (d : Detection) (p : Progress) (split : Split) (place : ℕ) : Prop :=
  Takes s d p split place → HasTaken s d p split place

theorem Settled.alike_offer (h : Settled s d p split place) :
    Alike (offer s d p (split, place)) p := by
  by_cases htakes : Takes s d p split place
  · rw [offer_of_takes htakes]
    exact (h htakes).alike
  · rw [offer_of_not_takes htakes]
    exact Alike.refl p

/-- So it is as soon as the split has been offered the detection: one that took it and
is no start has it in its slot. -/
theorem settled_offer_self (hplace : place < p.passages.length) :
    Settled s d (offer s d p (split, place)) split place := by
  intro hagain
  by_cases htakes : Takes s d p split place
  · rw [offer_of_takes htakes] at hagain ⊢
    obtain ⟨hstatus, -, hopen⟩ := hagain
    have hshown : (taken s d p split place).passages[place]? =
        some (.detected (timing s p split d)) := by
      rw [taken, List.getElem?_set_self hplace]
    have hstart : split.isStart = true := by
      simpa [isOpen, hshown, Passage.isVisited, Passage.timing?] using hopen
    refine ⟨hstart, ?_, ?_, ?_⟩
    · rw [hshown, timing_eq_of_isStart hstart]
    · rw [crossing?_taken, if_pos rfl]
    · unfold taken at hstatus ⊢
      by_cases hfinish : split.isFinish = true
      · simp [hfinish] at hstatus
      · simp [hfinish]
  · rw [offer_of_not_takes htakes] at hagain
    exact absurd hagain htakes

/-- What another split takes opens no lap for the same detection, unless that lap
takes no time. -/
theorem Takes.of_taken (h : Takes s d (taken s d p other k) split place)
    (hstatus : p.status ≠ .finished) (hne : place ≠ k)
    (htime : split.previousLap = some other.id → Duration.zero < split.minLapTime) :
    Takes s d p split place := by
  obtain ⟨-, heligible, hopen⟩ := h
  rw [isEligible_iff] at heligible
  obtain ⟨hreader, hwindow, hlap⟩ := heligible
  refine ⟨hstatus, isEligible_iff.mpr ⟨hreader, hwindow, fun previous hlink => ?_⟩, ?_⟩
  · obtain ⟨t, lap, hcrossing, helapsed, hle⟩ := hlap previous hlink
    rw [crossing?_taken] at hcrossing
    by_cases hid : previous = other.id
    · rw [if_pos hid, Option.some.injEq] at hcrossing
      rw [← hcrossing, Instant.elapsed_self, Option.some.injEq] at helapsed
      have hpos := htime (hid ▸ hlink)
      rw [Duration.lt_def] at hpos
      rw [← helapsed, Duration.le_def] at hle
      omega
    · rw [if_neg hid] at hcrossing
      exact ⟨t, lap, hcrossing, helapsed, hle⟩
  · unfold isOpen taken at hopen
    rwa [List.getElem?_set_ne (Ne.symm hne)] at hopen

/-- It stays so while the detection is offered to the splits behind. -/
theorem Settled.offer (h : Settled s d p split place) (hne : place ≠ k)
    (htime : split.previousLap = some other.id → Duration.zero < split.minLapTime) :
    Settled s d (offer s d p (other, k)) split place := by
  intro hagain
  by_cases htakes : Takes s d p other k
  · rw [offer_of_takes htakes] at hagain ⊢
    have hbefore := h (hagain.of_taken htakes.1 hne htime)
    refine ⟨hbefore.isStart, ?_, ?_, ?_⟩
    · rw [taken, List.getElem?_set_ne (Ne.symm hne), hbefore.passage,
        timing_eq_of_isStart hbefore.isStart]
    · rw [crossing?_taken, hbefore.crossing, ite_self]
    · have hstatus := hagain.1
      unfold taken at hstatus ⊢
      by_cases hfinish : other.isFinish = true
      · simp [hfinish] at hstatus
      · simp [hfinish]
  · rw [offer_of_not_takes htakes] at hagain ⊢
    exact h hagain

/-- After a round every split is settled. -/
theorem settled_offerAll (hlaps : LapsTakeTime splits) (hlength : p.passages.length = splits.length)
    (hsplit : splits[place]? = some split) : Settled s d (offerAll s splits p d) split place := by
  have hround : (offerAll s splits p d).passages.length = splits.length ∧
      ∀ i < splits.length, ∀ split, splits[i]? = some split →
        Settled s d (offerAll s splits p d) split i := by
    refine offerAll_induction (motive := fun n x => x.passages.length = splits.length ∧
      ∀ i < n, ∀ split, splits[i]? = some split → Settled s d x split i) ?_
      ⟨hlength, fun i hi => absurd hi (Nat.not_lt_zero i)⟩
    intro n x next hnext hx
    obtain ⟨hlength, hsettled⟩ := hx
    have hn : n < splits.length := (List.getElem?_eq_some_iff.mp hnext).1
    refine ⟨?_, fun i hi split hsplit => ?_⟩
    · by_cases htakes : Takes s d x next n
      · rw [offer_of_takes htakes, taken, List.length_set, hlength]
      · rw [offer_of_not_takes htakes, hlength]
    · rcases Nat.lt_succ_iff_lt_or_eq.mp hi with hlt | rfl
      · exact (hsettled i hlt split hsplit).offer (Nat.ne_of_lt hlt)
          (hlaps.minLapTime_pos hsplit hnext (Nat.le_of_lt hlt))
      · obtain rfl : split = next := Option.some.inj (hsplit.symm.trans hnext)
        exact settled_offer_self (hlength ▸ hn)
  exact hround.2 place (List.getElem?_eq_some_iff.mp hsplit).1 split hsplit

/-- So a second round adds nothing that is read. -/
theorem alike_offerAll_offerAll (hlaps : LapsTakeTime splits)
    (hlength : p.passages.length = splits.length) :
    Alike (offerAll s splits (offerAll s splits p d) d) (offerAll s splits p d) := by
  refine offerAll_induction (motive := fun _ x => Alike x (offerAll s splits p d)) ?_
    (Alike.refl _)
  intro i x split hsplit hx
  exact (hx.offer (split, i)).trans (settled_offerAll hlaps hlength hsplit).alike_offer

/-! ### The outcome -/

/--
**A detection that is reported twice counts once.**  Wherever it stands among the
others, a copy right behind it leaves the outcome as it is, as long as a lap that may
take no time is closed behind the split that opens it.
-/
theorem matchTrace_readTwice (ceiling : Duration) (trace : Trace) (splits : List Split)
    (start : Option Split) (hlaps : LapsTakeTime splits) (before after : List Detection)
    (d : Detection) (hreads : trace.detections = before ++ d :: after) :
    matchTrace ceiling (withDetections trace (before ++ d :: d :: after)) splits start =
      matchTrace ceiling trace splits start := by
  obtain ⟨earlier, later, honce, htwice⟩ := exists_inTimeOrder_twice before after d
  let s := (Run.of ceiling trace splits start).setting
  have hlength : (earlier.foldl (offerAll s splits) (.initial splits.length)).passages.length =
      splits.length := Run.length_passages ⟨s, splits, earlier⟩
  have halike : Alike
      (Run.of ceiling (withDetections trace (before ++ d :: d :: after)) splits start).progress
      (Run.of ceiling trace splits start).progress := by
    show Alike ((inTimeOrder (before ++ d :: d :: after)).foldl (offerAll s splits) _)
      ((inTimeOrder trace.detections).foldl (offerAll s splits) _)
    rw [hreads, honce, htwice, List.foldl_append, List.foldl_append, List.foldl_cons,
      List.foldl_cons, List.foldl_cons]
    exact List.foldl_rel (alike_offerAll_offerAll hlaps hlength) fun e _ _ _ h => h.offerAll e
  rw [matchTrace_eq, matchTrace_eq, halike.passages, halike.status]
  rfl

/-- One mat for a start, a lap that may take no time, a lap of a minute in front of
the split that opens it, and that split. -/
def tangledLaps : List Split :=
  let split (n : Nat) (kind : SplitKind) (minLapTime : Nat) (previousLap : Option SplitId) :
      Split :=
    { id := ⟨BitVec.ofNat 128 n⟩, event := ⟨1⟩, name := "", kind, distance := ⟨0⟩, reader := ⟨1⟩
      minTime := .zero, maxTime := .ofSeconds 100, minLapTime := .ofSeconds minLapTime
      previousLap }
  [split 1 .start 0 none, split 2 .standard 0 (some ⟨1⟩), split 3 .standard 60 (some ⟨4⟩),
    split 4 .standard 0 none]

/-- The read at the gun is reported twice.  It closes the lap that takes no time, and
opens the other one without closing it. -/
theorem readTwice_tangledLaps :
    LapsTakeTime tangledLaps ∧
      (matchTrace defaultCeiling twoLapsTrace tangledLaps tangledLaps.head?).slots.map
          Slot.passage =
        [.detected ⟨early 90, .ofSeconds 90, .zero⟩, .detected ⟨early 0, .zero, .zero⟩,
          .detected ⟨early 90, .ofSeconds 90, .zero⟩, .detected ⟨early 0, .zero, .zero⟩] ∧
      matchTrace defaultCeiling
          (withDetections twoLapsTrace
            ([400, 30, 200, 0, 0, 210, 90].map fun t => ⟨⟨1⟩, early t⟩)) tangledLaps
          tangledLaps.head? =
        matchTrace defaultCeiling twoLapsTrace tangledLaps tangledLaps.head? :=
  ⟨by decide, by cbv, matchTrace_readTwice defaultCeiling twoLapsTrace tangledLaps tangledLaps.head?
    (by decide) ([400, 30, 200].map fun t => ⟨⟨1⟩, early t⟩)
    ([210, 90].map fun t => ⟨⟨1⟩, early t⟩) ⟨⟨1⟩, early 0⟩ rfl⟩

end ChipTiming.Matching
