import CryptoData.Core.Symbols
import CryptoData.Core.Worker

/-!
# Ingest — the tasks of the orchestrator

`run_ingest_forever` makes a worker for each (venue, stream) of the configuration that has symbols,
next to the writer, the health writer and the reconciler.  So each (venue, stream, symbol) that is
asked for and that the venue carries is subscribed by one worker (`subscribed_iff`).

A venue whose source cannot be made is skipped, but only here: the reconciler gets the names of all
venues and raises for such a one, and so does a worker for a stream without a table; what a task
raises ends the whole process (`ingest_starts_iff`).
-/

namespace CryptoData

open Foundation

/-! ## The configuration -/

/-- The value of a stream: `True`, a list of canonical symbols, or anything else. -/
inductive Scope
  | all
  | only (symbols : List String)
  | off

/-- `config/ingest.toml`: `[streams.<venue>]`, and `[book].levels`. -/
structure IngestConfig where
  streams : Dict String (Dict String Scope)
  levels : ℕ := 20

/-- `config/venues.toml`: the sections with their keys. -/
abbrev VenuesConfig := Dict String (Dict String String)

/-- `make_source(name)`, with the constructor of the adapter; `none` stands for the `KeyError` of
either. -/
def makeSource (venues : VenuesConfig) (name : String) : Option String :=
  if name ∈ allSources then do
    let cfg ← venues.get? name
    let _wsUrl ← cfg.get? "ws_url"
    let _restBase ← cfg.get? "rest_base"
    some name
  else none

/-! ## The tasks -/

/-- The coroutines that are started; a worker with the source, the stream, the symbols and the
depth that it is made with. -/
inductive IngestTask
  | writer
  | worker (venue stream : String) (symbols : List String) (depth : Option ℕ)
  | healthWriter
  | reconciler (venueNames : List String)
  deriving DecidableEq, Repr

section Tasks

variable (byCanonical : Dict String SymbolMap) (venues : VenuesConfig) (cfg : IngestConfig)

/-- `_resolve_symbols_for(venue, scope)`. -/
def resolveSymbolsFor (venue : String) : Scope → List String
  | .all => (symbolsForVenue byCanonical venue).map Prod.fst
  | .only symbols =>
      let venueSyms := (symbolsForVenue byCanonical venue).map Prod.fst
      symbols.filter fun s => venueSyms.contains s
  | .off => []

/-- `for stream, scope in streams.items()`. -/
def streamTasks (venue : String) (streams : Dict String Scope) : List IngestTask :=
  streams.entries.filterMap fun e =>
    match resolveSymbolsFor byCanonical venue e.2 with
    | [] => none
    | s :: symbols =>
        let depth := if e.1 = "book_l2_snapshot" then some cfg.levels else none
        some (.worker venue e.1 (s :: symbols) depth)

/-- `for venue, streams in streams_cfg.items()`. -/
def venueTasks : List IngestTask :=
  cfg.streams.entries.flatMap fun e =>
    match makeSource venues e.1 with
    | none => []
    | some source => streamTasks byCanonical cfg source e.2

/-- `tasks`. -/
def ingestTasks : List IngestTask :=
  .writer :: venueTasks byCanonical venues cfg ++
    [.healthWriter, .reconciler cfg.streams.keys]

/-- `_STREAM_TO_TABLE[stream]`. -/
def streamTable? (stream : String) : Option StreamType :=
  [StreamType.trades, .quotes, .bookL2Snapshot, .funding, .openInterest].find? fun s =>
    decide (s.name = stream)

/-- The task gets to its loop. -/
def IngestTask.starts : IngestTask → Bool
  | .writer => true
  -- `table = _STREAM_TO_TABLE[self.stream]`.
  | .worker _ stream _ _ => (streamTable? stream).isSome
  | .healthWriter => true
  -- `sources = [make_source(v) for v in venue_names]`.
  | .reconciler venueNames => venueNames.all fun v => (makeSource venues v).isSome

/-- `await asyncio.gather(*tasks)` is not left at once by what a task raises. -/
def ingestStarts : Bool :=
  (ingestTasks byCanonical venues cfg).all fun t => t.starts venues

end Tasks

/-- The (venue, stream) of a worker. -/
def IngestTask.feed? : IngestTask → Option (String × String)
  | .worker venue stream _ _ => some (venue, stream)
  | _ => none

/-- The configuration asks for the symbol. -/
def Scope.asks : Scope → String → Prop
  | .all, _ => True
  | .only symbols, symbol => symbol ∈ symbols
  | .off, _ => False

section Spec

variable {byCanonical : Dict String SymbolMap} {venues : VenuesConfig} {cfg : IngestConfig}
variable {venue stream symbol : String} {t : IngestTask}

lemma mem_resolveSymbolsFor_iff {scope : Scope} :
    symbol ∈ resolveSymbolsFor byCanonical venue scope ↔
      scope.asks symbol ∧ symbol ∈ (symbolsForVenue byCanonical venue).map Prod.fst := by
  cases scope with
  | all => exact (and_iff_right trivial).symm
  | only symbols =>
      refine List.mem_filter.trans ?_
      rw [List.contains_iff_mem]
      rfl
  | off => exact ⟨fun h => absurd h List.not_mem_nil, fun h => absurd h.1 id⟩

lemma makeSource_eq {name : String} (h : makeSource venues venue = some name) : name = venue := by
  unfold makeSource at h
  split_ifs at h
  rcases Option.bind_eq_some_iff.1 h with ⟨section', _, hws⟩
  rcases Option.bind_eq_some_iff.1 hws with ⟨_, _, hrest⟩
  rcases Option.bind_eq_some_iff.1 hrest with ⟨_, _, hname⟩
  exact (Option.some.inj hname).symm

/-- A task of a venue is a worker for a stream with symbols. -/
lemma mem_streamTasks_iff {streams : Dict String Scope} :
    t ∈ streamTasks byCanonical cfg venue streams ↔
      ∃ stream scope, streams.get? stream = some scope ∧
        resolveSymbolsFor byCanonical venue scope ≠ [] ∧
          t = .worker venue stream (resolveSymbolsFor byCanonical venue scope)
            (if stream = "book_l2_snapshot" then some cfg.levels else none) := by
  unfold streamTasks
  rw [List.mem_filterMap]
  constructor
  · rintro ⟨⟨stream, scope⟩, hmem, htask⟩
    refine ⟨stream, scope, Dict.get?_eq_some_iff.2 hmem, ?_⟩
    cases hsymbols : resolveSymbolsFor byCanonical venue scope with
    | nil => simp [hsymbols] at htask
    | cons s symbols =>
        simp only [hsymbols, Option.some.injEq] at htask
        exact ⟨List.cons_ne_nil s symbols, htask.symm⟩
  · rintro ⟨stream, scope, hget, hsymbols, rfl⟩
    refine ⟨(stream, scope), Dict.get?_eq_some_iff.1 hget, ?_⟩
    cases hcons : resolveSymbolsFor byCanonical venue scope with
    | nil => exact absurd hcons hsymbols
    | cons s symbols => rfl

lemma mem_venueTasks_iff :
    t ∈ venueTasks byCanonical venues cfg ↔
      ∃ venue streams, cfg.streams.get? venue = some streams ∧
        (makeSource venues venue).isSome ∧ t ∈ streamTasks byCanonical cfg venue streams := by
  unfold venueTasks
  rw [List.mem_flatMap]
  constructor
  · rintro ⟨⟨venue, streams⟩, hmem, htask⟩
    cases hsource : makeSource venues venue with
    | none => simp [hsource] at htask
    | some name =>
        simp only [hsource] at htask
        rw [makeSource_eq hsource] at htask
        exact ⟨venue, streams, Dict.get?_eq_some_iff.2 hmem, by rw [hsource]; rfl, htask⟩
  · rintro ⟨venue, streams, hget, hsome, htask⟩
    refine ⟨(venue, streams), Dict.get?_eq_some_iff.1 hget, ?_⟩
    cases hsource : makeSource venues venue with
    | none =>
        rw [hsource] at hsome
        cases hsome
    | some name =>
        simp only
        rw [makeSource_eq hsource]
        exact htask

lemma worker_mem_iff {symbols : List String} {depth : Option ℕ} :
    .worker venue stream symbols depth ∈ ingestTasks byCanonical venues cfg ↔
      .worker venue stream symbols depth ∈ venueTasks byCanonical venues cfg := by
  simp [ingestTasks]

/-- The workers of a venue have different streams. -/
lemma nodup_streamFeeds (streams : Dict String Scope) :
    ((streamTasks byCanonical cfg venue streams).filterMap IngestTask.feed?).Nodup := by
  have hsub : ∀ entries : List (String × Scope),
      ((entries.filterMap fun e =>
        match resolveSymbolsFor byCanonical venue e.2 with
        | [] => none
        | s :: symbols =>
            let depth := if e.1 = "book_l2_snapshot" then some cfg.levels else none
            some (IngestTask.worker venue e.1 (s :: symbols) depth)).filterMap
              IngestTask.feed?).Sublist (entries.map fun e => (venue, e.1)) := by
    intro entries
    induction entries with
    | nil => exact List.Sublist.refl []
    | cons e entries ih =>
        cases hsymbols : resolveSymbolsFor byCanonical venue e.2 with
        | nil => simpa [hsymbols] using ih.cons (venue, e.1)
        | cons s symbols => simpa [hsymbols, IngestTask.feed?] using ih
  have hkeys : (streams.entries.map fun e => (venue, e.1)).Nodup := by
    have hpair := streams.nodup.map (f := fun stream => (venue, stream)) fun a b hab =>
      congrArg Prod.snd hab
    rwa [List.map_map] at hpair
  exact hkeys.sublist (hsub streams.entries)

lemma feed_venue {feed : String × String} {streams : Dict String Scope}
    (h : feed ∈ (streamTasks byCanonical cfg venue streams).filterMap IngestTask.feed?) :
    feed.1 = venue := by
  rcases List.mem_filterMap.1 h with ⟨t, ht, hfeed⟩
  rcases mem_streamTasks_iff.1 ht with ⟨stream, scope, _, _, rfl⟩
  rw [← Option.some.inj hfeed]

/-- No (venue, stream) has two workers. -/
theorem nodup_feeds :
    ((ingestTasks byCanonical venues cfg).filterMap IngestTask.feed?).Nodup := by
  have hvenues : ((venueTasks byCanonical venues cfg).filterMap IngestTask.feed?).Nodup := by
    unfold venueTasks
    rw [List.filterMap_flatMap, List.nodup_flatMap]
    constructor
    · intro e _
      cases hsource : makeSource venues e.1 with
      | none => exact List.nodup_nil
      | some name => exact nodup_streamFeeds e.2
    · -- The feeds of different venues differ in the venue.
      have hkeys : cfg.streams.entries.Pairwise fun e f => e.1 ≠ f.1 :=
        List.pairwise_map.1 cfg.streams.nodup
      refine hkeys.imp ?_
      intro e f hne feed he hf
      have hvenue : ∀ g : String × Dict String Scope,
          feed ∈ (match makeSource venues g.1 with
            | none => []
            | some source => streamTasks byCanonical cfg source g.2).filterMap
              IngestTask.feed? → feed.1 = g.1 := by
        intro g hg
        cases hsource : makeSource venues g.1 with
        | none => simp [hsource] at hg
        | some name =>
            simp only [hsource] at hg
            rw [feed_venue hg]
            exact makeSource_eq hsource
      exact hne ((hvenue e he).symm.trans (hvenue f hf))
  have hrest : (ingestTasks byCanonical venues cfg).filterMap IngestTask.feed? =
      (venueTasks byCanonical venues cfg).filterMap IngestTask.feed? := by
    rw [ingestTasks, List.filterMap_append]
    exact List.append_nil _
  rw [hrest]
  exact hvenues

/-- A worker subscribes to what its stream is configured for. -/
theorem subscribed_iff :
    (∃ symbols depth, .worker venue stream symbols depth ∈ ingestTasks byCanonical venues cfg ∧
        symbol ∈ symbols) ↔
      (makeSource venues venue).isSome ∧
        symbol ∈ (symbolsForVenue byCanonical venue).map Prod.fst ∧
          ∃ streams scope, cfg.streams.get? venue = some streams ∧
            streams.get? stream = some scope ∧ scope.asks symbol := by
  constructor
  · rintro ⟨symbols, depth, htask, hsymbol⟩
    rcases mem_venueTasks_iff.1 (worker_mem_iff.1 htask) with ⟨v, streams, hstreams, hsource, hin⟩
    rcases mem_streamTasks_iff.1 hin with ⟨name, scope, hscope, _, heq⟩
    cases heq
    rcases mem_resolveSymbolsFor_iff.1 hsymbol with ⟨hasks, hcarried⟩
    exact ⟨hsource, hcarried, streams, scope, hstreams, hscope, hasks⟩
  · rintro ⟨hsource, hcarried, streams, scope, hstreams, hscope, hasks⟩
    have hsymbol := mem_resolveSymbolsFor_iff.2 ⟨hasks, hcarried⟩
    refine ⟨_, _, worker_mem_iff.2 (mem_venueTasks_iff.2 ⟨venue, streams, hstreams, hsource,
      mem_streamTasks_iff.2 ⟨stream, scope, hscope, List.ne_nil_of_mem hsymbol, rfl⟩⟩), hsymbol⟩

/-- All tasks get to their loops if each configured venue has a source, and each stream with symbols
has a table. -/
theorem ingestStarts_iff :
    ingestStarts byCanonical venues cfg = true ↔
      (∀ venue ∈ cfg.streams.keys, (makeSource venues venue).isSome) ∧
        ∀ venue streams stream scope, cfg.streams.get? venue = some streams →
          streams.get? stream = some scope → resolveSymbolsFor byCanonical venue scope ≠ [] →
            (streamTable? stream).isSome := by
  unfold ingestStarts
  rw [List.all_eq_true]
  constructor
  · intro h
    have hreconciler : (IngestTask.reconciler cfg.streams.keys).starts venues = true :=
      h _ (by simp [ingestTasks])
    have hvenues : ∀ venue ∈ cfg.streams.keys, (makeSource venues venue).isSome :=
      List.all_eq_true.1 hreconciler
    refine ⟨hvenues, ?_⟩
    intro venue streams stream scope hstreams hscope hsymbols
    have hkey : venue ∈ cfg.streams.keys := Dict.mem_keys_iff.2 ⟨streams, hstreams⟩
    exact h _ (worker_mem_iff.2 (mem_venueTasks_iff.2 ⟨venue, streams, hstreams,
      hvenues venue hkey, mem_streamTasks_iff.2 ⟨stream, scope, hscope, hsymbols, rfl⟩⟩))
  · rintro ⟨hvenues, hstreams⟩ t ht
    cases t with
    | writer => rfl
    | healthWriter => rfl
    | worker venue stream symbols depth =>
        rcases mem_venueTasks_iff.1 (worker_mem_iff.1 ht) with ⟨v, streams, hget, _, hin⟩
        rcases mem_streamTasks_iff.1 hin with ⟨name, scope, hscope, hsymbols, heq⟩
        cases heq
        exact hstreams venue streams stream scope hget hscope hsymbols
    | reconciler venueNames =>
        have hnames : venueNames = cfg.streams.keys := by
          have hnone : IngestTask.reconciler venueNames ∉ venueTasks byCanonical venues cfg := by
            intro hin
            rcases mem_venueTasks_iff.1 hin with ⟨v, streams, _, _, hin⟩
            rcases mem_streamTasks_iff.1 hin with ⟨name, scope, _, _, heq⟩
            cases heq
          simpa [ingestTasks, hnone] using ht
        rw [hnames]
        exact List.all_eq_true.2 hvenues

end Spec

end CryptoData
