import CryptoData.Core.Health

/-!
# HealthWriter — the venue_status table

Every round of `run_health_writer` evaluates the tracker and writes one row for each stream of the
report, under one clock reading.  The row of a stream with the latest reading up to an instant is
what the table says about the stream at that instant; after a round it is the verdict of that round
(`downAt_dump_iff`).
-/

namespace CryptoData

open Foundation

/-! ## The table -/

/-- The primary key of `venue_status`: `ts_ns` and the stream. -/
abbrev StatusKey := Int × StreamKey

/-- The other columns. -/
structure VenueStatus where
  up : Bool
  coveragePct : Option ℚ
  notes : Option String
  deriving DecidableEq, Repr

abbrev StatusTable := Dict StatusKey VenueStatus

structure HealthWriter where
  tracker : HealthTracker
  status : StatusTable

inductive WriterEvent
  | record (key : StreamKey) (ns : Int)
  | dump (now : StreamKey → Readings) (tsNs : Int)

namespace HealthWriter

def init : HealthWriter :=
  ⟨HealthTracker.init, Dict.empty⟩

/-- `INSERT OR REPLACE INTO venue_status`, one row for each entry of the report. -/
def writeReport (status : StatusTable) (tsNs : Int) (report : Dict StreamKey HealthStatus) :
    StatusTable :=
  report.entries.foldl
    (fun status e => status.set (tsNs, e.1) ⟨e.2.up, some e.2.recentPerS, none⟩) status

/-- One round of the loop; an empty report writes nothing. -/
def dump (p : HealthParams) (s : HealthWriter) (now : StreamKey → Readings) (tsNs : Int) :
    HealthWriter :=
  let out := s.tracker.evaluate p now
  ⟨out.1, writeReport s.status tsNs out.2⟩

def step (p : HealthParams) (s : HealthWriter) : WriterEvent → HealthWriter
  | .record key ns => { s with tracker := s.tracker.record key ns }
  | .dump now tsNs => s.dump p now tsNs

def run (p : HealthParams) (events : List WriterEvent) : HealthWriter :=
  events.foldl (step p) init

end HealthWriter

/-! ## The latest row -/

/-- The latest row of the stream up to `t` says that it is down. -/
def DownAt (status : StatusTable) (key : StreamKey) (t : Int) : Prop :=
  ∃ tsNs row, status.get? (tsNs, key) = some row ∧ tsNs ≤ t ∧ row.up = false ∧
    ∀ tsNs' row', status.get? (tsNs', key) = some row' → tsNs' ≤ t → tsNs' ≤ tsNs

section Table

variable {p : HealthParams} {now : StreamKey → Readings} {s : HealthWriter} {key : StreamKey}
  {tsNs : Int}

/-- A round writes its own row of each stream of the report and touches no other. -/
lemma get?_writeReport (status : StatusTable) (tsNs : Int) (report : Dict StreamKey HealthStatus)
    (k : StatusKey) :
    (HealthWriter.writeReport status tsNs report).get? k =
      if k.1 = tsNs then
        ((report.get? k.2).map fun e => ⟨e.up, some e.recentPerS, none⟩).or (status.get? k)
      else status.get? k := by
  have hnodup : (report.entries.map fun e => (tsNs, e.1)).Nodup := by
    refine List.Nodup.of_map Prod.snd ?_
    rw [List.map_map]
    exact report.nodup
  have hfold := Dict.get?_foldl_set (fun e : StreamKey × HealthStatus => (tsNs, e.1))
    (fun e => (⟨e.2.up, some e.2.recentPerS, none⟩ : VenueStatus)) k report.entries status hnodup
  rw [HealthWriter.writeReport, hfold]
  rcases k with ⟨ts, key⟩
  by_cases hts : ts = tsNs
  · subst hts
    have hfind : (report.entries.find? fun e => decide ((ts, e.1) = (ts, key))) =
        report.entries.find? fun e => decide (e.1 = key) :=
      congrArg report.entries.find? (funext fun e => decide_eq_decide.2 (by simp))
    have hget : report.get? key =
        (report.entries.find? fun e => decide (e.1 = key)).map Prod.snd := rfl
    rw [if_pos rfl, hfind, hget, Option.map_map]
    rfl
  · have hnone : (report.entries.find? fun e => decide ((tsNs, e.1) = (ts, key))) = none := by
      refine List.find?_eq_none.2 ?_
      intro e _ he
      exact hts (congrArg Prod.fst (of_decide_eq_true he)).symm
    rw [if_neg hts, hnone, Option.map_none, Option.none_or]

/-- After a round that no row is later than, the table says about a stream of the report what the
round found. -/
theorem downAt_dump_iff {verdict : HealthStatus} {t : Int} (ht : tsNs ≤ t)
    (hlatest : ∀ ts row, s.status.get? (ts, key) = some row → ts ≤ tsNs)
    (hreport : (s.tracker.evaluate p now).2.get? key = some verdict) :
    DownAt (s.dump p now tsNs).status key t ↔ verdict.up = false := by
  have hown : (s.dump p now tsNs).status.get? (tsNs, key) =
      some ⟨verdict.up, some verdict.recentPerS, none⟩ := by
    rw [HealthWriter.dump, get?_writeReport, if_pos rfl, hreport]
    rfl
  have hlast : ∀ ts row, (s.dump p now tsNs).status.get? (ts, key) = some row → ts ≤ tsNs := by
    intro ts row hrow
    rw [HealthWriter.dump, get?_writeReport] at hrow
    by_cases hts : ts = tsNs
    · exact le_of_eq hts
    · rw [if_neg hts] at hrow
      exact hlatest ts row hrow
  constructor
  · rintro ⟨ts, row, hrow, _, hdown, hmax⟩
    have hts : ts = tsNs := le_antisymm (hlast ts row hrow) (hmax tsNs _ hown ht)
    subst hts
    rw [hown] at hrow
    rw [← Option.some.inj hrow] at hdown
    exact hdown
  · intro hdown
    exact ⟨tsNs, _, hown, ht, hdown, fun ts row hrow _ => hlast ts row hrow⟩

end Table

end CryptoData
