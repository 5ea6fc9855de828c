/-
Athletes, reads, traces and results as JSON.
-/
import ChipTiming.Exchange.Values

namespace ChipTiming

open Exchange

variable {δ : Type} [Readable δ]

/-! ### Athletes and reads -/

def Athlete.read (d : δ) : Reading Athlete := do
  let m ← Readable.members ["Id", "RaceId", "EventId", "WaveId", "Bib", "Chip", "Gender",
    "CategoryId", "Status"] d
  return {
    id := ← m.required "Id" Id.read
    race := ← m.required "RaceId" Id.read
    event := ← m.required "EventId" Id.read
    wave := ← m.required "WaveId" Id.read
    bib := ← m.required "Bib" Readable.text
    chip := ← m.required "Chip" Readable.text
    gender := ← m.withDefault "Gender" .unspecified Gender.read
    category := ← m.withDefault "CategoryId" none (Members.readOptional Id.read)
    status := ← m.withDefault "Status" .notYetStarted Status.read }

def Athlete.toJson (a : Athlete) : Json :=
  .object [("Id", a.id.toJson), ("RaceId", a.race.toJson), ("EventId", a.event.toJson),
    ("WaveId", a.wave.toJson), ("Bib", .text a.bib), ("Chip", .text a.chip),
    ("Gender", a.gender.toJson), ("CategoryId", .ofOption Id.toJson a.category),
    ("Status", a.status.toJson)]

def ChipRead.read (d : δ) : Reading ChipRead := do
  let m ← Readable.members ["Chip", "Tod", "TimeReaderId", "CanUse"] d
  return {
    chip := ← m.required "Chip" Readable.text
    time := ← m.required "Tod" Instant.read
    reader := ← m.required "TimeReaderId" Id.read
    isUsable := ← m.withDefault "CanUse" true Readable.flag }

def ChipRead.toJson (r : ChipRead) : Json :=
  .object [("Chip", .text r.chip), ("Tod", r.time.toJson), ("TimeReaderId", r.reader.toJson),
    ("CanUse", .flag r.isUsable)]

/-! ### Traces -/

def Detection.read (d : δ) : Reading Detection := do
  let m ← Readable.members ["time_reader_id", "tod"] d
  return {
    reader := ← m.required "time_reader_id" Id.read
    time := ← m.required "tod" Instant.read }

def Detection.toJson (d : Detection) : Json :=
  .object [("time_reader_id", d.reader.toJson), ("tod", d.time.toJson)]

def Trace.read (d : δ) : Reading Trace := do
  let m ← Readable.members ["athlete_id", "bib", "chip", "gender", "category_id", "wave_start",
    "status", "detections"] d
  return {
    athlete := ← m.required "athlete_id" Id.read
    bib := ← m.required "bib" Readable.text
    chip := ← m.required "chip" Readable.text
    gender := ← m.required "gender" Gender.read
    category := ← m.nullable "category_id" Id.read
    waveStart := ← m.required "wave_start" Instant.read
    status := ← m.required "status" Status.read
    detections := ← m.required "detections" (readList Detection.read) }

def Trace.toJson (t : Trace) : Json :=
  .object [("athlete_id", t.athlete.toJson), ("bib", .text t.bib), ("chip", .text t.chip),
    ("gender", t.gender.toJson), ("category_id", .ofOption Id.toJson t.category),
    ("wave_start", t.waveStart.toJson), ("status", t.status.toJson),
    ("detections", .ofList Detection.toJson t.detections)]

/-! ### Passages and ranks -/

def Timing.read (d : δ) : Reading Timing := do
  let m ← Readable.members ["Tod", "GunTime", "NetTime"] d
  return {
    time := ← m.required "Tod" Instant.read
    gunTime := ← m.required "GunTime" Duration.read
    netTime := ← m.required "NetTime" Duration.read }

/-- The members of a timing. -/
def Timing.members (t : Timing) : List (String × Json) :=
  [("Tod", t.time.toJson), ("GunTime", t.gunTime.toJson), ("NetTime", t.netTime.toJson)]

def Timing.toJson (t : Timing) : Json := .object t.members

namespace Passage

/-- The passage of a given source, with the rest of the record for its timing. -/
def ofSource (source : String) (rest : Json) : Reading Passage :=
  match source with
  | "not-visited" =>
    match rest with
    | .array (_ :: _) => refuse
    | _ => pure notVisited
  | "detected" => detected <$> Timing.read rest
  | "manual" => manual <$> Timing.read rest
  | _ => refuse

/-- The member `Source`, or the first item, says what the other members are. -/
def read : Json → Reading Passage
  | .object members =>
    match members.lookup "Source" with
    | some (.text source) => ofSource source (.object members)
    | _ => refuse
  | .array (.text source :: rest) => ofSource source (.array rest)
  | _ => refuse

def toJson : Passage → Json
  | notVisited => .object [("Source", .text "not-visited")]
  | detected t => .object (("Source", .text "detected") :: t.members)
  | manual t => .object (("Source", .text "manual") :: t.members)

end Passage

namespace Ranks

/-- A place, which a machine word of 32 bits holds. -/
def readPlace (d : δ) : Reading Nat := do
  let n ← Readable.natural d
  if n < UInt32.size then return n else refuse

def read (d : δ) : Reading Ranks := do
  let m ← Readable.members ["Overall", "Gender", "Category"] d
  return {
    overall := ← m.nullable "Overall" readPlace
    gender := ← m.nullable "Gender" readPlace
    category := ← m.nullable "Category" readPlace }

def toJson (r : Ranks) : Json :=
  .object [("Overall", .ofOption .ofNat r.overall), ("Gender", .ofOption .ofNat r.gender),
    ("Category", .ofOption .ofNat r.category)]

end Ranks

/-! ### Slots -/

namespace Slot

def read (d : Json) : Reading Slot := do
  let m ← Readable.members ["AthleteId", "SplitId", "EventId", "CategoryId", "Gender", "Passage",
    "GunRanks", "NetRanks"] d
  return {
    athlete := ← m.required "AthleteId" Id.read
    split := ← m.required "SplitId" Id.read
    event := ← m.required "EventId" Id.read
    category := ← m.nullable "CategoryId" Id.read
    gender := ← m.required "Gender" Gender.read
    passage := ← m.withDefault "Passage" .notVisited Passage.read
    gunRanks := ← m.withDefault "GunRanks" .none Ranks.read
    netRanks := ← m.withDefault "NetRanks" .none Ranks.read }

def toJson (s : Slot) : Json :=
  .object [("AthleteId", s.athlete.toJson), ("SplitId", s.split.toJson),
    ("EventId", s.event.toJson), ("CategoryId", .ofOption Id.toJson s.category),
    ("Gender", s.gender.toJson), ("Passage", s.passage.toJson),
    ("GunRanks", s.gunRanks.toJson), ("NetRanks", s.netRanks.toJson)]

end Slot

end ChipTiming
