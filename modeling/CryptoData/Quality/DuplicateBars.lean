import CryptoData.Quality.RunChecks

/-!
# DuplicateBars — scoring a day whose bars share seconds

Repeated builds leave several bars of a venue, or of the tape, in one second.  A slice of a single
venue is scored all the same, with an issue for the duplicates.  The slice of the tape is compared
with the venues of its day, and that raises unless the seconds of the venues can be aligned and the
tape has as many bars in a second as they have (`score_day_returns_iff`).
-/

namespace CryptoData

open Foundation

/-! ## The stored bars -/

section Stored

variable (views : Views) (symbol venue date : String)

/-- The number of stored bars of a venue in a second. -/
def barsAt (ts : Int) : ℕ :=
  ((views.bars.onDisk ⟨"bars_1s", symbol, venue, date⟩).map Bar.tsNs).count ts

/-- The venues that have bars on the day, without the tape. -/
def otherVenues : List String :=
  (venuesFor views.bars "bars_1s" symbol date).filter fun v => decide (v ≠ "agg")

/-- All venues have equally many bars in each second, or none has two in one second. -/
def SecondsAlign : Prop :=
  (∀ v ∈ otherVenues views symbol date, ∀ w ∈ otherVenues views symbol date,
      ∀ ts, barsAt views symbol v date ts = barsAt views symbol w date ts) ∨
    ∀ v ∈ otherVenues views symbol date, ∀ ts, barsAt views symbol v date ts ≤ 1

/-- In a second of the tape, it has as many bars as any venue with a bar in that second. -/
def TapeAligns : Prop :=
  ∀ v ∈ otherVenues views symbol date, ∀ ts, 0 < barsAt views symbol v date ts →
    0 < barsAt views symbol "agg" date ts →
      barsAt views symbol "agg" date ts = barsAt views symbol v date ts

/-- Next to two venues or more, the slice of the tape needs their seconds to align, and its own to
align with them. -/
def Comparable : Prop :=
  venue = "agg" → 2 ≤ (otherVenues views symbol date).length →
    SecondsAlign views symbol date ∧ TapeAligns views symbol date

end Stored

/-! ## What is loaded -/

section Loaded

variable {ρ : Type}

/-- The files of a directory, by name or as they come. -/
lemma onDisk_perm (s : Store ρ) (dir : Partition) :
    (s.onDisk dir).Perm
      ((s.entries.filter fun e => decide (e.1.partition = dir)).flatMap Prod.snd) := by
  -- Sorting the names permutes the files, and each name is that of one file.
  have hnames : (s.sortedNames dir fun _ => true).Perm
      ((s.entries.filter fun e => decide (e.1.partition = dir)).map fun e => e.1.name) := by
    refine (List.perm_insertionSort _ _).trans (List.Perm.of_eq ?_)
    rw [Dict.keys, List.filter_map, List.map_map]
    refine congrArg _ (List.filter_congr ?_)
    intro e _
    exact Bool.and_true _
  refine (hnames.flatMap_right _).trans (List.Perm.of_eq ?_)
  rw [List.flatMap_map]
  refine List.flatMap_congr ?_
  intro e he
  have hmem := List.mem_filter.1 he
  have hpath : (⟨dir, e.1.name⟩ : PartPath) = e.1 := by
    rw [← of_decide_eq_true hmem.2]
  rw [hpath, Dict.getD, Dict.get?_eq_some_iff.2 hmem.1]
  rfl

lemma slice_perm_onDisk (scan : Scan) (ts : ρ → Int) (s : Store ρ) (dir : Partition) :
    (scan.slice ts s dir).Perm (s.onDisk dir) :=
  ((List.perm_insertionSort _ _).trans (scan.rows_perm _)).trans (onDisk_perm s dir).symm

end Loaded

section Slice

variable {scan : Scan} {views : Views} {symbol date : String}

/-- The loaded timestamps of a venue. -/
def stamps (scan : Scan) (views : Views) (symbol date v : String) : List Int :=
  (loadBars scan views symbol v date).map Bar.tsNs

lemma count_stamps (scan : Scan) (v : String) (ts : Int) :
    (stamps scan views symbol date v).count ts = barsAt views symbol v date ts :=
  ((slice_perm_onDisk scan Bar.tsNs views.bars _).map Bar.tsNs).count_eq ts

/-- Loaded timestamps are sorted, so they are the same if each occurs equally often. -/
lemma stamps_eq_iff (v w : String) :
    stamps scan views symbol date v = stamps scan views symbol date w ↔
      ∀ ts, barsAt views symbol v date ts = barsAt views symbol w date ts := by
  constructor
  · intro h ts
    rw [← count_stamps scan, h, count_stamps]
  · intro h
    have hperm : (stamps scan views symbol date v).Perm (stamps scan views symbol date w) := by
      refine List.perm_iff_count.2 ?_
      intro ts
      rw [count_stamps, count_stamps, h]
    exact hperm.eq_of_pairwise (fun _ _ _ _ hab hba => le_antisymm hab hba)
      (scan.slice_sorted _ _ _) (scan.slice_sorted _ _ _)

/-- A venue is found only if it has a bar. -/
lemma stamps_ne_nil (scan : Scan) {v : String} (hv : v ∈ otherVenues views symbol date) :
    stamps scan views symbol date v ≠ [] := by
  rcases mem_venuesFor_iff.1 (List.mem_filter.1 hv).1 with ⟨b, hb⟩
  exact List.ne_nil_of_mem (List.mem_map.2 ⟨b, Scan.mem_slice.2 hb, rfl⟩)

/-- The seconds align exactly if the loaded timestamps are joinable. -/
lemma joinable_stamps_iff {ls : List (List Int)}
    (hls : ∀ l, l ∈ ls ↔ ∃ v ∈ otherVenues views symbol date, stamps scan views symbol date v = l) :
    Joinable ls ↔ SecondsAlign views symbol date := by
  have hall : ∀ p : List Int → Prop,
      (∀ l ∈ ls, p l) ↔ ∀ v ∈ otherVenues views symbol date,
        p (stamps scan views symbol date v) := by
    intro p
    constructor
    · intro h v hv
      exact h _ ((hls _).2 ⟨v, hv, rfl⟩)
    · intro h l hl
      rcases (hls l).1 hl with ⟨v, hv, rfl⟩
      exact h v hv
  -- Equal lists are equal counts, and lists without duplicates are counts of at most one.
  refine or_congr ?_ ?_
  · rw [hall fun a => ∀ b ∈ ls, a = b]
    refine forall₂_congr ?_
    intro v _
    rw [hall fun b => stamps scan views symbol date v = b]
    refine forall₂_congr ?_
    intro w _
    exact stamps_eq_iff v w
  · rw [hall List.Nodup]
    refine forall₂_congr ?_
    intro v _
    rw [List.nodup_iff_count_le_one]
    refine forall_congr' ?_
    intro ts
    rw [count_stamps]

end Slice

/-! ## The context of the tape -/

section Context

variable {scan : Scan} {views : Views} {symbol date : String} {bars : List Bar}

lemma mem_entries_aggContext {v : String} {df : List Bar} :
    (v, df) ∈ (aggContext scan views symbol date bars).perVenueBars.entries ↔
      v ∈ otherVenues views symbol date ∧ df = loadBars scan views symbol v date := by
  rw [← Dict.get?_eq_some_iff, get?_aggContext, otherVenues, List.mem_filter, decide_eq_true_eq]
  by_cases hv : v ∈ venuesFor views.bars "bars_1s" symbol date ∧ v ≠ "agg"
  · rw [if_pos hv, and_iff_right hv, Option.some_inj]
    exact eq_comm
  · rw [if_neg hv]
    exact iff_of_false (Option.some_ne_none _).symm fun h => hv h.1

lemma length_entries_aggContext :
    (aggContext scan views symbol date bars).perVenueBars.entries.length =
      (otherVenues views symbol date).length := by
  have hperm : (aggContext scan views symbol date bars).perVenueBars.keys.Perm
      (otherVenues views symbol date) := by
    refine (List.perm_ext_iff_of_nodup (Dict.keys_nodup _) ((sortedSet_nodup _).filter _)).2 ?_
    intro v
    rw [Dict.mem_keys_iff]
    constructor
    · intro h
      rcases h with ⟨df, hdf⟩
      exact (mem_entries_aggContext.1 (Dict.get?_eq_some_iff.1 hdf)).1
    · intro hv
      exact ⟨_, Dict.get?_eq_some_iff.2 (mem_entries_aggContext.2 ⟨hv, rfl⟩)⟩
  rw [← hperm.length_eq, Dict.keys, List.length_map]

lemma loadBars_isEmpty {v : String} (hv : v ∈ otherVenues views symbol date) :
    (loadBars scan views symbol v date).isEmpty = false := by
  refine List.isEmpty_eq_false_iff.2 ?_
  intro hnil
  exact stamps_ne_nil scan hv (congrArg (List.map Bar.tsNs) hnil)

lemma mem_frameLabels_aggContext (l : List Int) :
    l ∈ frameLabels (aggContext scan views symbol date bars).perVenueBars.values ↔
      ∃ v ∈ otherVenues views symbol date, stamps scan views symbol date v = l := by
  rw [frameLabels, List.mem_map]
  constructor
  · intro h
    rcases h with ⟨df, hdf, rfl⟩
    rcases List.mem_map.1 (List.mem_filter.1 hdf).1 with ⟨⟨v, df'⟩, he, rfl⟩
    rcases mem_entries_aggContext.1 he with ⟨hv, rfl⟩
    exact ⟨v, hv, rfl⟩
  · intro h
    rcases h with ⟨v, hv, rfl⟩
    refine ⟨loadBars scan views symbol v date, List.mem_filter.2 ⟨?_, ?_⟩, rfl⟩
    · exact List.mem_map.2 ⟨(v, _), mem_entries_aggContext.2 ⟨hv, rfl⟩, rfl⟩
    · rw [loadBars_isEmpty hv]
      rfl

/-- The dispersion check drops no venue. -/
lemma venueColumns_aggContext :
    venueColumns (aggContext scan views symbol date bars).perVenueBars =
      (aggContext scan views symbol date bars).perVenueBars.values.map closeColumn := by
  unfold venueColumns Dict.values
  rw [List.filter_eq_self.2, List.map_map]
  · rfl
  · rintro ⟨v, df⟩ he
    rcases mem_entries_aggContext.1 he with ⟨hv, rfl⟩
    have hname : v ≠ "agg" := of_decide_eq_true (List.mem_filter.1 hv).2
    rw [loadBars_isEmpty hv, decide_eq_true hname]
    rfl

lemma length_venueColumns :
    (venueColumns (aggContext scan views symbol date bars).perVenueBars).length =
      (otherVenues views symbol date).length := by
  rw [venueColumns_aggContext, List.length_map, Dict.values, List.length_map,
    length_entries_aggContext]

lemma map_labels_venueColumns :
    (venueColumns (aggContext scan views symbol date bars).perVenueBars).map labels =
      frameLabels (aggContext scan views symbol date bars).perVenueBars.values := by
  have hkeep : ((aggContext scan views symbol date bars).perVenueBars.values.filter
      fun df => !df.isEmpty) = (aggContext scan views symbol date bars).perVenueBars.values := by
    refine List.filter_eq_self.2 ?_
    intro df hdf
    rcases List.mem_map.1 hdf with ⟨⟨v, df'⟩, he, rfl⟩
    rcases mem_entries_aggContext.1 he with ⟨hv, rfl⟩
    rw [loadBars_isEmpty hv]
    rfl
  rw [venueColumns_aggContext, frameLabels, hkeep, List.map_map]
  exact List.map_congr_left fun df _ => labels_closeColumn df

/-- The loop finds the bars of the tape if there are any. -/
lemma aggBars_of_loadBars :
    (aggContext scan views symbol date (loadBars scan views symbol "agg" date)).aggBars =
      loadBars scan views symbol "agg" date := by
  refine (foldl_visitVenue "agg" _ _).2.trans ?_
  by_cases hin : "agg" ∈ venuesFor views.bars "bars_1s" symbol date
  · exact if_pos hin
  · rw [if_neg hin]
    refine (List.eq_nil_iff_forall_not_mem.2 ?_).symm
    intro b hb
    exact hin (mem_venuesFor_iff.2 ⟨b, Scan.mem_slice.1 hb⟩)

/-- Next to fewer than two venues nothing is compared. -/
lemma crossVenueIssues_of_few (hfew : (otherVenues views symbol date).length < 2) :
    crossVenueIssues (some (aggContext scan views symbol date bars)) = some [] := by
  have hcolumns :
      (venueColumns (aggContext scan views symbol date bars).perVenueBars).length < 2 := by
    rw [length_venueColumns]
    exact hfew
  have hentries : (aggContext scan views symbol date bars).perVenueBars.entries.length < 2 := by
    rw [length_entries_aggContext]
    exact hfew
  simp only [crossVenueIssues, checkAggWithinVenueRange?, checkCrossVenueDispersion?, hcolumns,
    hentries, or_true, if_true]
  split
  · rfl
  · rfl

/-- Next to two venues or more, neither check may raise. -/
lemma crossVenueIssues_isSome_of_many {context : AggContext}
    (hentries : 2 ≤ context.perVenueBars.entries.length)
    (hcolumns : 2 ≤ (venueColumns context.perVenueBars).length) :
    (crossVenueIssues (some context)).isSome ↔
      (context.aggBars = [] ∨
          Joinable (frameLabels context.perVenueBars.values) ∧
            ∀ ts ∈ context.aggBars.map Bar.tsNs,
              ∀ l ∈ frameLabels context.perVenueBars.values, ts ∈ l →
                (context.aggBars.map Bar.tsNs).count ts = l.count ts) ∧
        Joinable ((venueColumns context.perVenueBars).map labels) := by
  have hnonempty : ¬ context.perVenueBars.entries.isEmpty = true := by
    intro h
    rw [List.isEmpty_iff.1 h] at hentries
    exact absurd hentries (by decide)
  have hdispersion : (checkCrossVenueDispersion? context.perVenueBars).isSome ↔
      Joinable ((venueColumns context.perVenueBars).map labels) :=
    checkCrossVenueDispersion?_isSome_iff hcolumns
  rw [← checkAggWithinVenueRange?_isSome_iff hentries, ← hdispersion]
  unfold crossVenueIssues
  dsimp only
  rw [if_neg hnonempty]
  cases checkAggWithinVenueRange? context.aggBars context.perVenueBars with
  | none => exact iff_of_false Bool.false_ne_true fun h => absurd h.1 Bool.false_ne_true
  | some range =>
      cases checkCrossVenueDispersion? context.perVenueBars with
      | none => exact iff_of_false Bool.false_ne_true fun h => absurd h.2 Bool.false_ne_true
      | some dispersion => exact iff_of_true rfl ⟨rfl, rfl⟩

/-- The seconds that the first check compares, read off the directories. -/
lemma tapeAligns_iff :
    (∀ ts ∈ stamps scan views symbol date "agg",
        ∀ l ∈ frameLabels (aggContext scan views symbol date bars).perVenueBars.values, ts ∈ l →
          (stamps scan views symbol date "agg").count ts = l.count ts) ↔
      TapeAligns views symbol date := by
  constructor
  · intro h v hv ts hvenue htape
    rw [← count_stamps scan, ← count_stamps scan]
    rw [← count_stamps scan] at hvenue htape
    exact h ts (List.count_pos_iff.1 htape) _ ((mem_frameLabels_aggContext _).2 ⟨v, hv, rfl⟩)
      (List.count_pos_iff.1 hvenue)
  · intro h ts htape l hl hvenue
    rcases (mem_frameLabels_aggContext l).1 hl with ⟨v, hv, rfl⟩
    have hboth := h v hv ts
    rw [← count_stamps scan, ← count_stamps scan] at hboth
    exact hboth (List.count_pos_iff.2 hvenue) (List.count_pos_iff.2 htape)

lemma tapeAligns_of_nil (h : loadBars scan views symbol "agg" date = []) :
    TapeAligns views symbol date := by
  intro v _ ts _ htape
  rw [← count_stamps scan, stamps, h] at htape
  exact absurd htape (lt_irrefl 0)

/-- Where the comparison of the tape with its venues raises nothing. -/
theorem crossVenueIssues_isSome_iff :
    (crossVenueIssues
      (some (aggContext scan views symbol date (loadBars scan views symbol "agg" date)))).isSome ↔
      (2 ≤ (otherVenues views symbol date).length →
        SecondsAlign views symbol date ∧ TapeAligns views symbol date) := by
  rcases Nat.lt_or_ge (otherVenues views symbol date).length 2 with hfew | hmany
  · rw [crossVenueIssues_of_few hfew]
    exact iff_of_true rfl fun hmany => absurd hmany (not_le.2 hfew)
  · have hentries : 2 ≤ (aggContext scan views symbol date
        (loadBars scan views symbol "agg" date)).perVenueBars.entries.length := by
      rw [length_entries_aggContext]
      exact hmany
    have hcolumns : 2 ≤ (venueColumns (aggContext scan views symbol date
        (loadBars scan views symbol "agg" date)).perVenueBars).length := by
      rw [length_venueColumns]
      exact hmany
    rw [crossVenueIssues_isSome_of_many hentries hcolumns, map_labels_venueColumns,
      joinable_stamps_iff mem_frameLabels_aggContext, aggBars_of_loadBars]
    constructor
    · intro h _
      refine ⟨h.2, ?_⟩
      rcases h.1 with hnil | hall
      · exact tapeAligns_of_nil hnil
      · exact tapeAligns_iff.1 hall.2
    · intro h
      exact ⟨Or.inr ⟨(h hmany).1, tapeAligns_iff.2 (h hmany).2⟩, (h hmany).1⟩

end Context

/-! ## Duplicates are reported -/

/-- Sorted bars of which two share a second have two neighbours that do. -/
lemma duplicates_reported {bars : List Bar} (hsorted : (bars.map Bar.tsNs).Pairwise (· ≤ ·))
    (hdup : ¬ (bars.map Bar.tsNs).Nodup) :
    ∃ issue ∈ barIssues bars, issue.check = "bar.duplicate_timestamps" := by
  have hmany : ¬ (bars.map Bar.tsNs).length < 2 := by
    intro hfew
    refine hdup (List.nodup_iff_injective_get.2 ?_)
    intro i j _
    exact Fin.ext (by omega)
  have hnonempty : ¬ bars.isEmpty = true := by
    intro h
    rw [List.isEmpty_iff.1 h] at hmany
    exact hmany (by decide)
  -- Were no difference zero, all would be positive, and no second would repeat.
  have hzero : (diffs (bars.map Bar.tsNs)).countP (fun d => decide (d = 0)) ≠ 0 := by
    intro hnone
    refine hdup (((diffs_pos_iff _).1 ?_).imp ne_of_lt)
    intro d hd
    have hnonneg := (diffs_nonneg_iff _).2 hsorted d hd
    have hne : ¬ decide (d = 0) = true := List.countP_eq_zero.1 hnone d hd
    exact lt_of_le_of_ne hnonneg fun h => hne (decide_eq_true h.symm)
  have hbars : ∀ issue ∈ checkBarTimestamps bars, issue ∈ barIssues bars := by
    intro issue hissue
    unfold barIssues
    rw [if_neg hnonempty]
    exact List.mem_append_left _ (List.mem_append_left _ (List.mem_append_right _ hissue))
  have hreported : ∃ issue ∈ checkBarTimestamps bars,
      issue.check = "bar.duplicate_timestamps" := by
    unfold checkBarTimestamps
    dsimp only
    rw [if_neg hmany]
    rcases exists_mem_issueIf hzero with ⟨issue, hissue, hcheck⟩
    exact ⟨issue, List.mem_append_left _ (List.mem_append_right _ hissue), hcheck⟩
  rcases hreported with ⟨issue, hissue, hcheck⟩
  exact ⟨issue, hbars issue hissue, hcheck⟩

section Score

variable (scan : Scan) (views : Views) (symbol venue date : String) (nowNs : Int)

/-- A slice with two bars in one second gets a card that says so, or no card. -/
lemma duplicates_of_scoreDay {card : Scorecard}
    (h : scoreDay scan runChecks views symbol venue date nowNs = some card) {ts : Int}
    (hts : 2 ≤ barsAt views symbol venue date ts) :
    ∃ issue ∈ card.issues, issue.check = "bar.duplicate_timestamps" := by
  rcases issues_of_scoreDay scan views symbol venue date nowNs h with ⟨context, hrun⟩
  rcases mem_runChecks hrun with ⟨cross, _, hmem⟩
  -- The loader keeps every row, so the second repeats in the loaded frame, too.
  have hdup : ¬ (stamps scan views symbol date venue).Nodup := by
    intro hnodup
    have hone := List.nodup_iff_count_le_one.1 hnodup ts
    rw [count_stamps] at hone
    exact absurd (hts.trans hone) (by decide)
  rcases duplicates_reported (scan.slice_sorted _ _ _) hdup with ⟨issue, hissue, hcheck⟩
  exact ⟨issue, (hmem issue).2 (Or.inl hissue), hcheck⟩

/-- A card is returned exactly if the checks across venues raise nothing. -/
lemma scoreDay_isSome_iff :
    (scoreDay scan runChecks views symbol venue date nowNs).isSome ↔
      Comparable views symbol venue date := by
  -- The checks of one frame are total; only those across venues may raise.
  have hcross : (scoreDay scan runChecks views symbol venue date nowNs).isSome ↔
      (crossVenueIssues (if venue = "agg" then
        some (aggContext scan views symbol date (loadBars scan views symbol venue date))
          else none)).isSome := by
    unfold scoreDay runChecks
    dsimp only
    cases crossVenueIssues (if venue = "agg" then
        some (aggContext scan views symbol date (loadBars scan views symbol venue date))
          else none) with
    | none => exact Iff.rfl
    | some cross => exact iff_of_true rfl rfl
  rw [hcross]
  by_cases hvenue : venue = "agg"
  · subst hvenue
    rw [if_pos rfl, crossVenueIssues_isSome_iff]
    exact ⟨fun h _ => h, fun h => h rfl⟩
  · rw [if_neg hvenue]
    exact iff_of_true rfl fun h => absurd h hvenue

/-- A card is returned, and names the duplicates of the slice, exactly if the slice is a venue or
can be compared with its venues. -/
theorem score_day_returns_iff :
    (∃ card, scoreDay scan runChecks views symbol venue date nowNs = some card ∧
        ((∃ ts, 2 ≤ barsAt views symbol venue date ts) →
          ∃ issue ∈ card.issues, issue.check = "bar.duplicate_timestamps")) ↔
      Comparable views symbol venue date := by
  rw [← scoreDay_isSome_iff scan views symbol venue date nowNs]
  constructor
  · intro h
    rcases h with ⟨card, hcard, _⟩
    exact Option.isSome_iff_exists.2 ⟨card, hcard⟩
  · intro h
    rcases Option.isSome_iff_exists.1 h with ⟨card, hcard⟩
    refine ⟨card, hcard, ?_⟩
    intro hdup
    rcases hdup with ⟨ts, hts⟩
    exact duplicates_of_scoreDay scan views symbol venue date nowNs hcard hts

end Score

/-- A second that was built of one venue, and once more when the other venue had come in. -/
def builtTwice : Views :=
  let bar (venue : String) : Bar := ⟨1000000000, "X-USD", venue, 1, 1, 1, 1, 1, 1, 1, 1, none⟩
  let write (s : Store Bar) (venue : String) (clock : ℕ) : Store Bar :=
    s.set ⟨⟨"bars_1s", "X-USD", venue, "1970-01-01"⟩, .part clock⟩ [bar venue]
  { bars := [("okx", 5), ("agg", 6), ("okx", 7), ("kraken", 8), ("agg", 9)].foldl
      (fun s e => write s e.1 e.2) Dict.empty
    trades := Dict.empty
    quotes := Dict.empty }

/-- The slice of the tape is not scored. -/
theorem built_twice_is_not_scored :
    (scoreDay Scan.plain runChecks builtTwice "X-USD" "agg" "1970-01-01" 9).isNone = true := by
  decide +kernel

end CryptoData
