/-
The walk as one row of offers.

Which split took which detection when is easier to follow if the two loops of the
walk are one: `Run.offers` lists every offer in the order in which it is made, and
`Run.after n` is the progress after the first `n` of them.  Offers are made in the
order of time, so "before" may be read off their positions.

What a slot shows has been written by one of the offers (`Run.exists_wrote`), and
from then on is kept, or at a start replaced by a later crossing
(`Run.timingAt?_of_le`).  From these two, statements about the outcome come down
to statements about single offers.  Links between laps may lead anywhere here.
-/
import ChipTiming.Proofs.Matching.Reading
import ChipTiming.Proofs.TimeOrder

namespace ChipTiming.Matching.Run

/-- Every detection with every split that it is offered to and the place of the
split. -/
def offers (r : Run) : List (Detection × Split × ℕ) :=
  r.reads.flatMap fun d => r.splits.zipIdx.map fun entry => (d, entry)

/-- The progress after the first so many offers. -/
def after (r : Run) (n : ℕ) : Progress :=
  (r.offers.take n).foldl (fun x offered => offer r.setting offered.1 x offered.2)
    (.initial r.splits.length)

variable {r : Run} {d e : Detection} {split : Split} {t : Timing} {i k m n : ℕ}

theorem mem_offers : (d, split, i) ∈ r.offers ↔ d ∈ r.reads ∧ r.splits[i]? = some split := by
  simp [offers, List.mem_zipIdx_iff_getElem?]

theorem mem_of_offered (h : r.offers[n]? = some (d, split, i)) :
    d ∈ r.reads ∧ r.splits[i]? = some split :=
  mem_offers.mp (List.mem_of_getElem? h)

theorem pairwise_offers (h : r.reads.Pairwise (·.time ≤ ·.time)) :
    r.offers.Pairwise (·.1.time ≤ ·.1.time) := by
  unfold offers
  rw [List.pairwise_flatMap]
  refine ⟨fun d _ => ?_, h.imp fun hle x hx y hy => ?_⟩
  · rw [List.pairwise_map]
    exact List.pairwise_of_forall fun _ _ => Instant.le_refl d.time
  · obtain ⟨_, -, rfl⟩ := List.mem_map.mp hx
    obtain ⟨_, -, rfl⟩ := List.mem_map.mp hy
    exact hle

/-- What is offered later was read later, or at the same time. -/
theorem time_le_of_offered (h : r.reads.Pairwise (·.time ≤ ·.time)) {split' : Split}
    (hm : r.offers[m]? = some (d, split, i)) (hn : r.offers[n]? = some (e, split', k))
    (hle : m ≤ n) : d.time ≤ e.time := by
  rcases Nat.lt_or_eq_of_le hle with hlt | rfl
  · obtain ⟨hm', hm⟩ := List.getElem?_eq_some_iff.mp hm
    obtain ⟨hn', hn⟩ := List.getElem?_eq_some_iff.mp hn
    have hpair := List.pairwise_iff_getElem.mp (pairwise_offers h) m n hm' hn' hlt
    rwa [hm, hn] at hpair
  · rw [hm, Option.some.injEq, Prod.mk.injEq] at hn
    rw [hn.1]
    exact Instant.le_refl _

/-! ### From one offer to the next -/

theorem after_zero : r.after 0 = .initial r.splits.length := rfl

theorem after_succ_of_offered (h : r.offers[n]? = some (d, split, i)) :
    r.after (n + 1) = offer r.setting d (r.after n) (split, i) := by
  unfold after
  rw [List.take_add_one, h, Option.toList_some, List.foldl_append]
  rfl

/-- All that an offer can do. -/
theorem after_succ_cases (r : Run) (n : ℕ) :
    r.after (n + 1) = r.after n ∨ ∃ d split i, r.offers[n]? = some (d, split, i) ∧
      Takes r.setting d (r.after n) split i ∧
      r.after (n + 1) = taken r.setting d (r.after n) split i := by
  cases hoffered : r.offers[n]? with
  | none =>
      have hlength : r.offers.length ≤ n := List.getElem?_eq_none_iff.mp hoffered
      refine Or.inl ?_
      unfold after
      rw [List.take_of_length_le hlength, List.take_of_length_le (by omega)]
  | some offered =>
      obtain ⟨d, split, i⟩ := offered
      rw [after_succ_of_offered hoffered]
      by_cases htakes : Takes r.setting d (r.after n) split i
      · exact Or.inr ⟨d, split, i, rfl, htakes, offer_of_takes htakes⟩
      · exact Or.inl (offer_of_not_takes htakes)

theorem after_length_offers (r : Run) : r.after r.offers.length = r.progress := by
  unfold after progress offers offerAll
  rw [List.take_length, List.foldl_flatMap]
  simp only [List.foldl_map]

theorem length_passages_after (r : Run) (n : ℕ) :
    (r.after n).passages.length = r.splits.length := by
  induction n with
  | zero => exact List.length_replicate
  | succ n ih =>
      rcases r.after_succ_cases n with hsame | ⟨d, split, i, -, -, htaken⟩
      · rw [hsame, ih]
      · rw [htaken, taken, List.length_set, ih]

/-- What the slots show after an offer was taken. -/
theorem timingAt?_taken_after (hoffered : r.offers[n]? = some (d, split, i)) (k : ℕ) :
    (taken r.setting d (r.after n) split i).timingAt? k =
      if k = i then some (timing r.setting (r.after n) split d) else (r.after n).timingAt? k := by
  refine timingAt?_taken ?_ k
  rw [r.length_passages_after]
  exact (List.getElem?_eq_some_iff.mp (mem_of_offered hoffered).2).1

theorem inStep_after (hids : (r.splits.map Split.id).Nodup) (n : ℕ) :
    (r.after n).InStep r.splits := by
  induction n with
  | zero => exact Progress.inStep_initial r.splits
  | succ n ih =>
      rcases r.after_succ_cases n with hsame | ⟨d, split, i, hoffered, -, htaken⟩
      · rwa [hsame]
      · rw [htaken]
        exact ih.taken hids (mem_of_offered hoffered).2

/-- After the finish nothing happens. -/
theorem after_eq_of_finished (hfinished : (r.after m).status = .finished) (hle : m ≤ n) :
    r.after n = r.after m := by
  induction n, hle using Nat.le_induction with
  | base => rfl
  | succ n _ ih =>
      rcases r.after_succ_cases n with hsame | ⟨d, split, i, -, htakes, -⟩
      · rw [hsame, ih]
      · exact absurd (ih ▸ hfinished) htakes.1

/-! ### What wrote a slot -/

/-- The `m`-th offer was taken by the split at place `k` and wrote a timing to its
slot. -/
structure Wrote (r : Run) (m k : ℕ) (d : Detection) (split : Split) (t : Timing) : Prop where
  offered : r.offers[m]? = some (d, split, k)
  takes : Takes r.setting d (r.after m) split k
  timing_eq : timing r.setting (r.after m) split d = t

namespace Wrote

variable (h : r.Wrote m k d split t)

include h

theorem mem_reads : d ∈ r.reads := (mem_of_offered h.offered).1

theorem getElem?_splits : r.splits[k]? = some split := (mem_of_offered h.offered).2

theorem time_eq : t.time = d.time := by
  rw [← h.timing_eq]
  rfl

theorem fits : r.Fits split d := by
  obtain ⟨hreader, hwindow, -⟩ := isEligible_iff.mp h.takes.2.1
  exact ⟨hreader, hwindow⟩

theorem timingAt?_succ : (r.after (m + 1)).timingAt? k = some t := by
  rw [after_succ_of_offered h.offered, offer_of_takes h.takes, timingAt?_taken_after h.offered,
    if_pos rfl, h.timing_eq]

end Wrote

/-- Every passage of a slot was written by one of the offers. -/
theorem passage_after {y : Passage} (h : (r.after n).passages[k]? = some y) :
    y = .notVisited ∨ ∃ m < n, ∃ d split t, y = .detected t ∧ r.Wrote m k d split t := by
  induction n with
  | zero =>
      rw [after_zero, Progress.initial, List.getElem?_replicate] at h
      split at h
      · exact Or.inl (Option.some.inj h).symm
      · exact absurd h.symm (Option.some_ne_none _)
  | succ n ih =>
      have hold (h : (r.after n).passages[k]? = some y) : y = .notVisited ∨
          ∃ m < n + 1, ∃ d split t, y = .detected t ∧ r.Wrote m k d split t := by
        rcases ih h with hnot | ⟨m, hm, hrest⟩
        · exact Or.inl hnot
        · exact Or.inr ⟨m, by omega, hrest⟩
      rcases r.after_succ_cases n with hsame | ⟨d, split, i, hoffered, htakes, htaken⟩
      · rw [hsame] at h
        exact hold h
      · rw [htaken, taken, List.getElem?_set] at h
        by_cases hk : i = k
        · subst hk
          rw [if_pos rfl] at h
          split at h
          · exact Or.inr ⟨n, by omega, d, split, _, (Option.some.inj h).symm, hoffered, htakes, rfl⟩
          · exact absurd h.symm (Option.some_ne_none _)
        · rw [if_neg hk] at h
          exact hold h

theorem exists_wrote (h : (r.after n).timingAt? k = some t) :
    ∃ m < n, ∃ d split, r.Wrote m k d split t := by
  obtain ⟨y, hy, ht⟩ := Option.bind_eq_some_iff.mp h
  rcases passage_after hy with rfl | ⟨m, hm, d, split, t', rfl, hwrote⟩
  · exact absurd ht.symm (Option.some_ne_none _)
  · obtain rfl : t' = t := Option.some.inj ht
    exact ⟨m, hm, d, split, hwrote⟩

/-- The split that wrote a slot is the one at its place. -/
theorem exists_wrote_by (hsplit : r.splits[k]? = some split)
    (h : (r.after n).timingAt? k = some t) : ∃ m < n, ∃ d, r.Wrote m k d split t := by
  obtain ⟨m, hm, d, split', hwrote⟩ := exists_wrote h
  obtain rfl : split = split' := Option.some.inj (hsplit.symm.trans hwrote.getElem?_splits)
  exact ⟨m, hm, d, hwrote⟩

/-- What a slot shows was read no later than what is offered next. -/
theorem time_le_of_timingAt? (hsorted : r.reads.Pairwise (·.time ≤ ·.time))
    (h : (r.after n).timingAt? k = some t) (hoffered : r.offers[n]? = some (d, split, i)) :
    t.time ≤ d.time := by
  obtain ⟨m, hm, e, split', hwrote⟩ := exists_wrote h
  rw [hwrote.time_eq]
  exact time_le_of_offered hsorted hwrote.offered hoffered (by omega)

/-- A slot once written stays so; a start's comes to show later crossings only, and
any other slot what it showed first. -/
theorem timingAt?_of_le (hsorted : r.reads.Pairwise (·.time ≤ ·.time))
    (hsplit : r.splits[k]? = some split) (h : (r.after m).timingAt? k = some t) (hle : m ≤ n) :
    ∃ t', (r.after n).timingAt? k = some t' ∧ t.time ≤ t'.time ∧
      (split.isStart = false → t' = t) := by
  induction n, hle using Nat.le_induction with
  | base => exact ⟨t, h, Instant.le_refl _, fun _ => rfl⟩
  | succ n _ ih =>
      obtain ⟨t', ht', htime, hkept⟩ := ih
      rcases r.after_succ_cases n with hsame | ⟨d, split', i, hoffered, htakes, htaken⟩
      · rw [hsame]
        exact ⟨t', ht', htime, hkept⟩
      · rw [htaken, timingAt?_taken_after hoffered]
        by_cases hk : k = i
        · subst hk
          obtain rfl : split' = split := by
            rw [(mem_of_offered hoffered).2, Option.some.injEq] at hsplit
            exact hsplit
          rw [if_pos rfl]
          refine ⟨_, rfl, Instant.le_trans htime (time_le_of_timingAt? hsorted ht' hoffered), ?_⟩
          intro hkind
          -- A split other than a start takes nothing more.
          obtain ⟨-, -, hopen⟩ := htakes
          obtain ⟨y, hy, hyt⟩ := Option.bind_eq_some_iff.mp ht'
          simp [isOpen, hkind, hy, Passage.isVisited, hyt] at hopen
        · rw [if_neg hk]
          exact ⟨t', ht', htime, hkept⟩

/-! ### The outcome -/

section

variable {ceiling : Duration} {trace : Trace} {splits : List Split} {start : Option Split}
  {slot : Slot}

theorem pairwise_reads_of (ceiling : Duration) (trace : Trace) (splits : List Split)
    (start : Option Split) : (of ceiling trace splits start).reads.Pairwise (·.time ≤ ·.time) :=
  pairwise_inTimeOrder trace.detections

theorem mem_reads_of : d ∈ (of ceiling trace splits start).reads ↔ d ∈ trace.detections :=
  (inTimeOrder_perm trace.detections).mem_iff

/-- A slot of the outcome shows what it shows after all offers. -/
theorem passage_of_slot (hslot : (matchTrace ceiling trace splits start).slots[i]? = some slot) :
    ((of ceiling trace splits start).after
      (of ceiling trace splits start).offers.length).passages[i]? = some slot.passage := by
  obtain ⟨split, passage, -, hpassage, rfl⟩ := getElem?_slots_matchTrace.mp hslot
  rwa [after_length_offers]

theorem timingAt?_of_slot (hslot : (matchTrace ceiling trace splits start).slots[i]? = some slot)
    (ht : slot.passage.timing? = some t) :
    ((of ceiling trace splits start).after
      (of ceiling trace splits start).offers.length).timingAt? i = some t := by
  rw [Progress.timingAt?, passage_of_slot hslot, Option.bind_some, ht]

/-- Matching enters nothing by hand. -/
theorem detected_of_slot (hslot : (matchTrace ceiling trace splits start).slots[i]? = some slot)
    (ht : slot.passage.timing? = some t) : slot.passage = .detected t := by
  rcases passage_after (passage_of_slot hslot) with hnot | ⟨m, hm, d, split, t', hdetected, -⟩
  · rw [hnot] at ht
    exact absurd ht.symm (Option.some_ne_none _)
  · rw [hdetected] at ht ⊢
    exact congrArg _ (Option.some.inj ht)

theorem exists_slot (h : ((of ceiling trace splits start).after
      (of ceiling trace splits start).offers.length).timingAt? i = some t) :
    ∃ slot, (matchTrace ceiling trace splits start).slots[i]? = some slot ∧
      slot.passage.timing? = some t := by
  obtain ⟨passage, hpassage, ht⟩ := Option.bind_eq_some_iff.mp h
  have hi : i < splits.length := by
    have hlength := length_passages_after (of ceiling trace splits start)
      (of ceiling trace splits start).offers.length
    exact hlength ▸ (List.getElem?_eq_some_iff.mp hpassage).1
  rw [after_length_offers] at hpassage
  exact ⟨_, getElem?_slots_matchTrace.mpr
    ⟨splits[i], passage, List.getElem?_eq_getElem hi, hpassage, rfl⟩, ht⟩

end

end ChipTiming.Matching.Run
