/-
The walk over the detections, one offer at a time.

`walk` is a fold inside a fold: over the detections, and for each of them over the
splits.  Facts about it are always proved alike.  They hold while nothing has been
found, an offer keeps them, and they are carried from the last split of one
detection to the first split of the next.  `Run.induction` is that argument; the
motive may mention how far the walk has come, which is what a fact about "the
first detection that …" needs.

An offer either changes nothing or writes one crossing, in two places at once: the
slot of the split and the list of crossings that later laps are measured from.
`offer_of_takes` and `offer_of_not_takes` are all that the proofs know of `offer`.
The two places tell the same as long as no two splits share an identifier
(`Progress.InStep`).
-/
import ChipTiming.Matching
import ChipTiming.Proofs.TimeOrder

namespace ChipTiming.Matching

/-- One athlete's detections in the order in which they are taken, and what they are
matched against. -/
structure Run where
  setting : Setting
  splits : List Split
  reads : List Detection

/-- What the detections of a run amount to. -/
def Run.progress (r : Run) : Progress :=
  r.reads.foldl (offerAll r.setting r.splits) (.initial r.splits.length)

/-- The run that a trace is matched as. -/
def Run.of (ceiling : Duration) (trace : Trace) (splits : List Split) (start : Option Split) :
    Run where
  setting :=
    { ceiling
      waveStart := trace.waveStart
      startPlace := start.bind fun s => splits.findIdx? (·.id == s.id) }
  splits
  reads := inTimeOrder trace.detections

/-- A trace with other detections. -/
def withDetections (trace : Trace) (detections : List Detection) : Trace :=
  { trace with detections }

/-- A trace with further detections behind those that it has. -/
def withFurther (trace : Trace) (further : List Detection) : Trace :=
  { trace with detections := trace.detections ++ further }

theorem matchTrace_eq (ceiling : Duration) (trace : Trace) (splits : List Split)
    (start : Option Split) :
    matchTrace ceiling trace splits start =
      { slots := List.zipWith (fun split passage => { Slot.vacant trace split with passage }) splits
          (Run.of ceiling trace splits start).progress.passages
        status := (Run.of ceiling trace splits start).progress.status } := rfl

/-! ### One offer -/

variable {s : Setting} {d : Detection} {p : Progress} {split : Split} {place : Nat}

/-- Whether the split at a place takes a detection. -/
def Takes (s : Setting) (d : Detection) (p : Progress) (split : Split) (place : Nat) : Prop :=
  p.status ≠ .finished ∧ isEligible s p split d = true ∧ isOpen p place split = true

/-- The progress after the split at a place has taken a detection. -/
def taken (s : Setting) (d : Detection) (p : Progress) (split : Split) (place : Nat) :
    Progress where
  passages := p.passages.set place (.detected (timing s p split d))
  crossings := (split.id, d.time) :: p.crossings
  status := if split.isFinish then .finished else .running

theorem offer_of_takes (h : Takes s d p split place) :
    offer s d p (split, place) = taken s d p split place := by
  obtain ⟨hstatus, heligible, hopen⟩ := h
  have hne : (p.status == Status.finished) = false := by simpa using hstatus
  simp [offer, taken, hne, heligible, hopen]

theorem offer_of_not_takes (h : ¬Takes s d p split place) :
    offer s d p (split, place) = p := by
  unfold offer
  by_cases hstatus : p.status = .finished
  · simp [hstatus]
  · have hne : (p.status == Status.finished) = false := by simpa using hstatus
    have hno : ¬(isEligible s p split d && isOpen p place split) = true := by
      intro hboth
      rw [Bool.and_eq_true] at hboth
      exact h ⟨hstatus, hboth⟩
    simp only [hne, hno, if_neg, Bool.false_eq_true, not_false_eq_true]

/-- The timing that the slot at a place shows. -/
def Progress.timingAt? (p : Progress) (place : Nat) : Option Timing :=
  p.passages[place]?.bind Passage.timing?

theorem timingAt?_taken (hplace : place < p.passages.length) (k : Nat) :
    (taken s d p split place).timingAt? k
      = if k = place then some (timing s p split d) else p.timingAt? k := by
  unfold Progress.timingAt? taken
  rw [List.getElem?_set, if_pos hplace]
  by_cases hk : k = place
  · rw [if_pos hk, if_pos hk.symm]
    rfl
  · rw [if_neg hk, if_neg (Ne.symm hk)]

theorem crossing?_taken (id : SplitId) :
    (taken s d p split place).crossing? id
      = if id = split.id then some d.time else p.crossing? id := by
  unfold Progress.crossing? taken
  by_cases h : id = split.id
  · subst h
    simp
  · rw [List.lookup_cons, if_neg h]
    have hne : (id == split.id) = false := by simpa using h
    simp [hne]

/-- The lap that a split closes is open if the split before it has been crossed, at
least the least time of the lap earlier. -/
theorem lapIsOpen_iff :
    lapIsOpen p split d = true ↔ ∀ previous, split.previousLap = some previous →
      ∃ t lap, p.crossing? previous = some t ∧ t.elapsed d.time = some lap ∧
        split.minLapTime ≤ lap := by
  unfold lapIsOpen
  cases hlink : split.previousLap with
  | none => simp
  | some previous =>
      cases hcrossing : p.crossing? previous with
      | none => simp [hcrossing]
      | some t =>
          cases helapsed : t.elapsed d.time with
          | none => simp [hcrossing, helapsed]
          | some lap => simp [hcrossing, helapsed]

theorem isEligible_iff :
    isEligible s p split d = true ↔ split.reader = d.reader ∧
      (split.window s.waveStart s.ceiling).contains d.time = true ∧
      ∀ previous, split.previousLap = some previous →
        ∃ t lap, p.crossing? previous = some t ∧ t.elapsed d.time = some lap ∧
          split.minLapTime ≤ lap := by
  unfold isEligible
  rw [Bool.and_eq_true, Bool.and_eq_true, beq_iff_eq, lapIsOpen_iff, and_assoc]

/-! ### Slots and crossings -/

/-- Slots and crossings tell the same. -/
structure Progress.InStep (p : Progress) (splits : List Split) : Prop where
  length : p.passages.length = splits.length
  /-- The list of crossings tells of a split what its slot tells. -/
  crossing : ∀ {k : Nat} {split : Split}, splits[k]? = some split →
    p.crossing? split.id = (p.timingAt? k).map (·.time)
  /-- It tells nothing of splits that are not on the course. -/
  known : ∀ {id : SplitId} {t : Instant}, p.crossing? id = some t →
    ∃ split ∈ splits, split.id = id

theorem Progress.inStep_initial (splits : List Split) :
    (Progress.initial splits.length).InStep splits where
  length := List.length_replicate
  crossing {k _} _ := by
    unfold initial crossing? timingAt?
    rw [List.getElem?_replicate]
    split <;> rfl
  known h := by simp [initial, crossing?] at h

theorem Progress.InStep.taken {splits : List Split} (h : p.InStep splits)
    (hids : (splits.map Split.id).Nodup) (hsplit : splits[place]? = some split) :
    (taken s d p split place).InStep splits where
  length := by rw [Matching.taken, List.length_set, h.length]
  crossing {k split'} hsplit' := by
    have hplace : place < splits.length := (List.getElem?_eq_some_iff.mp hsplit).1
    rw [crossing?_taken, timingAt?_taken (h.length.symm ▸ hplace)]
    by_cases hk : k = place
    · subst hk
      obtain rfl : split = split' := by rwa [hsplit, Option.some.injEq] at hsplit'
      rw [if_pos rfl, if_pos rfl]
      rfl
    · have hne : split'.id ≠ split.id := by
        intro heq
        refine hk ((List.getElem?_inj (by simpa using hplace) hids).mp ?_).symm
        rw [List.getElem?_map, List.getElem?_map, hsplit, hsplit', Option.map_some, Option.map_some,
          heq]
      rw [if_neg hne, if_neg hk]
      exact h.crossing hsplit'
  known {id t} ht := by
    rw [crossing?_taken] at ht
    by_cases hid : id = split.id
    · exact ⟨split, List.mem_of_getElem? hsplit, hid.symm⟩
    · rw [if_neg hid] at ht
      exact h.known ht

/-! ### All offers -/

theorem offerAll_induction {motive : Nat → Progress → Prop} {splits : List Split}
    (hoffer : ∀ i p split, splits[i]? = some split → motive i p →
      motive (i + 1) (offer s d p (split, i)))
    (hstart : motive 0 p) : motive splits.length (offerAll s splits p d) := by
  have hprefix : ∀ n, n ≤ splits.length →
      motive n ((splits.zipIdx.take n).foldl (offer s d) p) := by
    intro n
    induction n with
    | zero => intro _; exact hstart
    | succ n ih =>
        intro hn
        have hsplit : splits[n]? = some splits[n] := List.getElem?_eq_getElem hn
        have hentry : splits.zipIdx[n]? = some (splits[n], n) := by
          rw [List.getElem?_zipIdx, hsplit]
          simp
        rw [List.take_add_one, hentry, Option.toList_some, List.foldl_append]
        exact hoffer n _ _ hsplit (ih (by omega))
  have hall := hprefix splits.length (Nat.le_refl _)
  rwa [List.take_of_length_le (by simp)] at hall

/--
**What every offer keeps holds of the whole run.**  In `motive p i` the first `p`
detections have been offered to every split, and the next one to the first `i` splits.
-/
theorem Run.induction {motive : Nat → Nat → Progress → Prop} (r : Run)
    (hstart : motive 0 0 (.initial r.splits.length))
    (hoffer : ∀ p i progress d split, r.reads[p]? = some d → r.splits[i]? = some split →
      motive p i progress → motive p (i + 1) (offer r.setting d progress (split, i)))
    (hnext : ∀ p progress, p < r.reads.length → motive p r.splits.length progress →
      motive (p + 1) 0 progress) :
    motive r.reads.length 0 r.progress := by
  have hprefix : ∀ n, n ≤ r.reads.length →
      motive n 0 ((r.reads.take n).foldl (offerAll r.setting r.splits)
        (.initial r.splits.length)) := by
    intro n
    induction n with
    | zero => intro _; exact hstart
    | succ n ih =>
        intro hn
        have hread : r.reads[n]? = some r.reads[n] := List.getElem?_eq_getElem hn
        rw [List.take_add_one, hread, Option.toList_some, List.foldl_append]
        refine hnext n _ hn (offerAll_induction ?_ (ih (by omega)))
        intro i p split hsplit hp
        exact hoffer n i p _ split hread hsplit hp
  have hall := hprefix r.reads.length (Nat.le_refl _)
  rwa [List.take_length] at hall

/-! ### What holds of every run -/

theorem Run.length_passages (r : Run) : r.progress.passages.length = r.splits.length := by
  refine r.induction (motive := fun _ _ progress => progress.passages.length = r.splits.length)
    List.length_replicate ?_ fun _ _ _ h => h
  intro p i progress d split _ _ h
  by_cases htakes : Takes r.setting d progress split i
  · rw [offer_of_takes htakes, taken, List.length_set, h]
  · rw [offer_of_not_takes htakes, h]

/-- Matching never sets a status that only officials set. -/
theorem Run.isAdministrative_status (r : Run) : r.progress.status.isAdministrative = false := by
  refine r.induction (motive := fun _ _ progress => progress.status.isAdministrative = false)
    rfl ?_ fun _ _ _ h => h
  intro p i progress d split _ _ h
  by_cases htakes : Takes r.setting d progress split i
  · rw [offer_of_takes htakes, taken]
    split <;> rfl
  · rw [offer_of_not_takes htakes, h]

theorem isAdministrative_matchTrace (ceiling : Duration) (trace : Trace) (splits : List Split)
    (start : Option Split) :
    (matchTrace ceiling trace splits start).status.isAdministrative = false := by
  rw [matchTrace_eq]
  exact Run.isAdministrative_status _

/-- A slot of the outcome shows what the run has found for its split. -/
theorem getElem?_slots_matchTrace {ceiling : Duration} {trace : Trace} {splits : List Split}
    {start : Option Split} {i : Nat} {slot : Slot} :
    (matchTrace ceiling trace splits start).slots[i]? = some slot ↔
      ∃ split passage, splits[i]? = some split ∧
        (Run.of ceiling trace splits start).progress.passages[i]? = some passage ∧
        { Slot.vacant trace split with passage } = slot := by
  rw [matchTrace_eq]
  exact List.getElem?_zipWith_eq_some

theorem keys_matchTrace (ceiling : Duration) (trace : Trace) (splits : List Split)
    (start : Option Split) :
    (matchTrace ceiling trace splits start).slots.map Slot.key =
      splits.map fun split => (trace.athlete, split.id) := by
  have hlength : (Run.of ceiling trace splits start).progress.passages.length = splits.length :=
    Run.length_passages _
  rw [matchTrace_eq, List.map_zipWith]
  refine List.ext_getElem (by simp [hlength]) fun i _ _ => ?_
  simp [Slot.key, Slot.vacant]

theorem map_split_matchTrace (ceiling : Duration) (trace : Trace) (splits : List Split)
    (start : Option Split) :
    (matchTrace ceiling trace splits start).slots.map Slot.split = splits.map Split.id := by
  have hkeys := congrArg (List.map Prod.snd) (keys_matchTrace ceiling trace splits start)
  rwa [List.map_map, List.map_map] at hkeys

/-! ### Two laps -/

/-- Two laps over one mat: the start, the first lap, and the finish. -/
def twoLaps : List Split :=
  let lap (n : Nat) (kind : SplitKind) (maxTime : Nat) (previous : Option SplitId) : Split :=
    { id := ⟨BitVec.ofNat 128 n⟩, event := ⟨1⟩, name := "", kind, distance := ⟨0⟩, reader := ⟨1⟩
      minTime := .zero, maxTime := .ofSeconds maxTime, minLapTime := .ofSeconds 60
      previousLap := previous }
  [lap 1 .start 100 none, lap 2 .standard 0 (some ⟨1⟩), lap 3 .finish 0 (some ⟨2⟩)]

/-- An athlete who is read by the mat of `twoLaps` six times. -/
def twoLapsTrace : Trace where
  athlete := ⟨1⟩
  bib := ""
  chip := ""
  gender := .unspecified
  category := none
  waveStart := early 0
  status := .notYetStarted
  detections := [400, 30, 200, 0, 210, 90].map fun t => ⟨⟨1⟩, early t⟩

/-- What the athlete's reads mean: the start counts from the last of them in its
window, so the first lap is closed by the read at 200 s and not by the one at 90 s. -/
def twoLapsOutcome : Outcome where
  slots := twoLaps.zipWith
    (fun split (t, gun, net) =>
      { Slot.vacant twoLapsTrace split with
        passage := .detected ⟨early t, .ofSeconds gun, .ofSeconds net⟩ })
    [(90, 90, 0), (200, 200, 110), (400, 400, 310)]
  status := .finished

/-! ### Three mats -/

/-- A start, a checkpoint and a finish, each with a mat of its own. -/
def threeMats : List Split :=
  let split (n : Nat) (kind : SplitKind) : Split :=
    { id := ⟨BitVec.ofNat 128 n⟩, event := ⟨1⟩, name := "", kind, distance := ⟨0⟩
      reader := ⟨BitVec.ofNat 128 n⟩, minTime := .zero, maxTime := .ofSeconds 100
      minLapTime := .zero, previousLap := none }
  [split 1 .start, split 2 .standard, split 3 .finish]

/-- An athlete who passes the checkpoint ten seconds after the gun, and the start ten
seconds later. -/
def lateStarter : Trace where
  athlete := ⟨1⟩
  bib := ""
  chip := ""
  gender := .unspecified
  category := none
  waveStart := early 0
  status := .notYetStarted
  detections := [⟨⟨1⟩, early 20⟩, ⟨⟨2⟩, early 10⟩]

/-- The checkpoint is passed again as the start is, then the start once more, and the
finish. -/
def lateFinish : List Detection := [⟨⟨3⟩, early 40⟩, ⟨⟨2⟩, early 20⟩, ⟨⟨1⟩, early 30⟩]

end ChipTiming.Matching
