/-
Scoring of chip-timed races.

From the reads of timing mats to crossings, times, places and statuses
(`Matching`, `Override`, `Standings`, `Cycle`), over a configuration that is
checked and kept consistent (`Configuration`, `Catalog`, `Store`), with the
documents that configurations come in (`Exchange`, `Json`, `Yaml`).

What is proved of it stands under `Proofs`, by what it is about: which
configurations are accepted (`Configuration`), what a catalog answers and which
courses it hands out (`Catalog`), what windows admit (`Windows`), what matching
makes of the detections, which of them do not count and what another clock would
change (`Matching`), how places are numbered and what the boards show of them
(`Standings`), what a store holds of what it was told, in however many batches
(`Store`), and what cycles compute and write (`Cycle`): who is scored with which
reads, which rows an event has and what they depend on, and what is written of
them, once and again, from a catalog or without one, in whatever order reads came
in, and ranked event by event or all at once.
-/
import ChipTiming.Exchange.Configuration
import ChipTiming.Exchange.Results
import ChipTiming.Json.Reader
import ChipTiming.Proofs.Catalog.Agreement
import ChipTiming.Proofs.Configuration.Valid
import ChipTiming.Proofs.Cycle.Again
import ChipTiming.Proofs.Cycle.Arrival
import ChipTiming.Proofs.Cycle.Cached
import ChipTiming.Proofs.Cycle.Chips
import ChipTiming.Proofs.Cycle.EventByEvent
import ChipTiming.Proofs.Cycle.Grid
import ChipTiming.Proofs.Cycle.HalfWritten
import ChipTiming.Proofs.Cycle.Implied
import ChipTiming.Proofs.Cycle.OneRanking
import ChipTiming.Proofs.Cycle.Onward
import ChipTiming.Proofs.Cycle.Reported
import ChipTiming.Proofs.Cycle.Stored
import ChipTiming.Proofs.Cycle.Traces
import ChipTiming.Proofs.Matching.Anchors
import ChipTiming.Proofs.Matching.Counting
import ChipTiming.Proofs.Matching.Exact
import ChipTiming.Proofs.Matching.Later
import ChipTiming.Proofs.Matching.Repeated
import ChipTiming.Proofs.Matching.Shifted
import ChipTiming.Proofs.Matching.Times
import ChipTiming.Proofs.Standings.Leaderboard
import ChipTiming.Proofs.Store.Batches
import ChipTiming.Proofs.Store.History
