/-
Configurations and settings as documents.

Every record names its members in the order that counts where they are given by
position.  Members that may be left out have the value that stands beside them.
-/
import ChipTiming.Configuration
import ChipTiming.Exchange.Values
import ChipTiming.Exchange.Yaml
import ChipTiming.Settings

namespace ChipTiming

open Exchange

variable {δ : Type} [Readable δ]

/-! ### Race, events, categories and readers -/

def Race.read (d : δ) : Reading Race := do
  let m ← Readable.members ["Id", "Name", "Timezone"] d
  return {
    id := ← m.required "Id" Id.read
    name := ← m.required "Name" Readable.text
    timezone := ← m.withDefault "Timezone" "UTC" Readable.text }

def Race.toJson (r : Race) : Json :=
  .object [("Id", r.id.toJson), ("Name", .text r.name), ("Timezone", .text r.timezone)]

def Event.read (d : δ) : Reading Event := do
  let m ← Readable.members ["Id", "RaceId", "Name", "Distance", "Date"] d
  return {
    id := ← m.required "Id" Id.read
    race := ← m.required "RaceId" Id.read
    name := ← m.required "Name" Readable.text
    distance := ← m.withDefault "Distance" .zero Readable.number
    date := ← m.required "Date" Date.read }

def Event.toJson (e : Event) : Json :=
  .object [("Id", e.id.toJson), ("RaceId", e.race.toJson), ("Name", .text e.name),
    ("Distance", .double e.distance), ("Date", e.date.toJson)]

def Category.read (d : δ) : Reading Category := do
  let m ← Readable.members ["Id", "EventId", "Name"] d
  return {
    id := ← m.required "Id" Id.read
    event := ← m.required "EventId" Id.read
    name := ← m.required "Name" Readable.text }

def Category.toJson (c : Category) : Json :=
  .object [("Id", c.id.toJson), ("EventId", c.event.toJson), ("Name", .text c.name)]

def TimeReader.read (d : δ) : Reading TimeReader := do
  let m ← Readable.members ["Id", "RaceId", "Name"] d
  return {
    id := ← m.required "Id" Id.read
    race := ← m.required "RaceId" Id.read
    name := ← m.required "Name" Readable.text }

def TimeReader.toJson (r : TimeReader) : Json :=
  .object [("Id", r.id.toJson), ("RaceId", r.race.toJson), ("Name", .text r.name)]

/-! ### Splits and waves -/

def Split.read (d : δ) : Reading Split := do
  let m ← Readable.members ["Id", "EventId", "Name", "Kind", "DistanceFromStart", "TimeReaderId",
    "MinTime", "MaxTime", "MinLapTime", "PreviousLapSplitId"] d
  return {
    id := ← m.required "Id" Id.read
    event := ← m.required "EventId" Id.read
    name := ← m.withDefault "Name" "" Readable.text
    kind := ← m.required "Kind" SplitKind.read
    distance := ← m.withDefault "DistanceFromStart" .zero Readable.number
    reader := ← m.required "TimeReaderId" Id.read
    minTime := ← m.withDefault "MinTime" .zero Duration.read
    maxTime := ← m.withDefault "MaxTime" .zero Duration.read
    minLapTime := ← m.withDefault "MinLapTime" .zero Duration.read
    previousLap := ← m.withDefault "PreviousLapSplitId" none (Members.readOptional Id.read) }

def Split.toJson (s : Split) : Json :=
  .object [("Id", s.id.toJson), ("EventId", s.event.toJson), ("Name", .text s.name),
    ("Kind", s.kind.toJson), ("DistanceFromStart", .double s.distance),
    ("TimeReaderId", s.reader.toJson), ("MinTime", s.minTime.toJson), ("MaxTime", s.maxTime.toJson),
    ("MinLapTime", s.minLapTime.toJson),
    ("PreviousLapSplitId", .ofOption Id.toJson s.previousLap)]

def Wave.read (d : δ) : Reading Wave := do
  let m ← Readable.members ["Id", "EventId", "Name", "StartTime", "IsLaunched"] d
  return {
    id := ← m.required "Id" Id.read
    event := ← m.required "EventId" Id.read
    name := ← m.withDefault "Name" "" Readable.text
    startTime := ← m.required "StartTime" Instant.read
    isLaunched := ← m.withDefault "IsLaunched" false Readable.flag }

def Wave.toJson (w : Wave) : Json :=
  .object [("Id", w.id.toJson), ("EventId", w.event.toJson), ("Name", .text w.name),
    ("StartTime", w.startTime.toJson), ("IsLaunched", .flag w.isLaunched)]

/-! ### Whole configurations -/

namespace Configuration

def read (d : δ) : Reading Configuration := do
  let m ← Readable.members ["Race", "Events", "Categories", "TimeReaders", "Splits", "Waves"] d
  return {
    race := ← m.required "Race" Race.read
    events := ← m.withDefault "Events" [] (readList Event.read)
    categories := ← m.withDefault "Categories" [] (readList Category.read)
    readers := ← m.withDefault "TimeReaders" [] (readList TimeReader.read)
    splits := ← m.withDefault "Splits" [] (readList Split.read)
    waves := ← m.withDefault "Waves" [] (readList Wave.read) }

def toJson (c : Configuration) : Json :=
  .object [("Race", c.race.toJson), ("Events", .ofList Event.toJson c.events),
    ("Categories", .ofList Category.toJson c.categories),
    ("TimeReaders", .ofList TimeReader.toJson c.readers),
    ("Splits", .ofList Split.toJson c.splits), ("Waves", .ofList Wave.toJson c.waves)]

end Configuration

/-! ### Settings -/

namespace Settings

def read (d : δ) : Reading Settings := do
  let m ← Readable.members ["MaxConcurrentEvents", "OpenWindowCeiling"] d
  return {
    concurrency := ← m.withDefault "MaxConcurrentEvents" standard.concurrency Readable.natural
    ceiling := ← m.withDefault "OpenWindowCeiling" standard.ceiling Duration.read }

def toJson (s : Settings) : Json :=
  .object [("MaxConcurrentEvents", .ofNat s.concurrency), ("OpenWindowCeiling", s.ceiling.toJson)]

end Settings

/-! ### YAML texts

A text is cleaned, read and validated, and the first of these that does not succeed decides what is
reported. -/

/-- Why a text does not give a record. -/
inductive TextFault where
  /-- Nothing is left of it once it is cleaned. -/
  | blank
  /-- It is no YAML, or does not have the form of the record, which is named. -/
  | malformed (record : String)
  /-- The record has a mistake in it. -/
  | mistaken (mistake : Misconfiguration)
  deriving DecidableEq, Repr

namespace TextFault

/-- The failure that the fault amounts to. -/
def failure : TextFault → Failure
  | blank => .parse "YAML preprocessing" "YAML is empty after preprocessing"
  | malformed record => .parse "YAML deserialization" ("not a valid " ++ record)
  | mistaken mistake => .configuration mistake

/-- What is reported: of a text without the right form, only what it should have
been. -/
def message : TextFault → String
  | malformed record => record
  | fault => fault.failure.message

end TextFault

/-- Reads a text as a record that is to be validated. -/
def ofYaml {α : Type} (record : String) (read : Yaml.Part → Reading α)
    (validate : α → Except Misconfiguration Unit) (s : String) : Except TextFault α :=
  match Yaml.cleaned? s with
  | none => .error .blank
  | some cs =>
    match Yaml.read? read cs with
    | none => .error (.malformed record)
    | some value =>
      match validate value with
      | .error mistake => .error (.mistaken mistake)
      | .ok () => .ok value

/-- The configuration that a text holds. -/
def Configuration.ofYaml : String → Except TextFault Configuration :=
  ChipTiming.ofYaml "race configuration" Configuration.read Configuration.validate

/-- The settings that a text holds. -/
def Settings.ofYaml : String → Except TextFault Settings :=
  ChipTiming.ofYaml "engine settings" Settings.read Settings.validate

end ChipTiming
