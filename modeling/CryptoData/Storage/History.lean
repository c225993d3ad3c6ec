import CryptoData.Storage.Compact
import CryptoData.Storage.FlushAll

/-!
# History — one tree under the writer, one-shot writes and compactions

The ingest process flushes into the tree, batch jobs put whole parts into it, and the nightly job
merges the parts of a directory.  Names of the three kinds never meet, so the writer does what it
would do alone (`Mirrors`), and the tree holds what the writer's own tree would hold together with
what the batch jobs have written (`runStorage_mirrors`).

The writer's rows lie in the directories of their symbol, venue and day (`located_runCalls`).  So
after a `flush_all` the tree holds all that was handed to it, each row in its directory, exactly if
no flush has failed (`located_after_flush_iff`).
-/

namespace CryptoData

open Foundation

variable {ρ : Type*} [Row ρ]

/-! ## The events -/

/-- What happens to the tree; one-shot writes and compactions come with their clock reading. -/
inductive StorageEvent (ρ : Type*)
  | call (c : WriterCall ρ)
  | writeDataframe (table : String) (rows : List ρ) (symbol venue date : String) (suffixNs : Int)
  | compact (partition : Partition) (nowNs : Int)

def storageStep (env : WriteEnv) (cfg : WriterConfig) (s : WriterRun ρ) :
    StorageEvent ρ → WriterRun ρ
  | .call c => (runCall env cfg s c).1
  | .writeDataframe table rows symbol venue date suffixNs =>
      { s with files := s.files.write ⟨⟨table, symbol, venue, date⟩, .part suffixNs⟩ rows }
  | .compact partition nowNs =>
      { s with files := (compactPartition s.files partition nowNs).1 }

def runStorage (env : WriteEnv) (cfg : WriterConfig) (events : List (StorageEvent ρ)) :
    WriterRun ρ :=
  events.foldl (storageStep env cfg) WriterRun.init

/-- The calls of the writer among the events. -/
def StorageEvent.call? : StorageEvent ρ → Option (WriterCall ρ)
  | call c => some c
  | writeDataframe _ _ _ _ _ _ => none
  | compact _ _ => none

def StorageEvent.reading? : StorageEvent ρ → Option Int
  | call _ => none
  | writeDataframe _ _ _ _ _ suffixNs => some suffixNs
  | compact _ nowNs => some nowNs

/-- The rows of a one-shot write, in their directory. -/
def StorageEvent.written : StorageEvent ρ → Multiset (Partition × ρ)
  | call _ => 0
  | writeDataframe table rows symbol venue date _ =>
      (rows.map fun r => (⟨table, symbol, venue, date⟩, r) : List (Partition × ρ))
  | compact _ _ => 0

def callsIn (events : List (StorageEvent ρ)) : List (WriterCall ρ) :=
  events.filterMap StorageEvent.call?

def readingsIn (events : List (StorageEvent ρ)) : List Int :=
  events.filterMap StorageEvent.reading?

def writtenIn (events : List (StorageEvent ρ)) : Multiset (Partition × ρ) :=
  (events.map StorageEvent.written).sum

/-- The directory of a row that was appended to a table. -/
def placed (row : String × ρ) : Partition × ρ :=
  (⟨row.1, Row.symbol row.2, Row.venue row.2, dateStr (Row.tsNs row.2)⟩, row.2)

/-- What has been handed to the tree, by either way. -/
def storedBy (events : List (StorageEvent ρ)) : Multiset (Partition × ρ) :=
  (accepted (callsIn events)).map placed + writtenIn events

/-! ## The writer is not disturbed -/

/-- The name is one of an earlier flush, or carries a reading that was used. -/
def NameUsed (env : WriteEnv) (attempts : ℕ) (used : List Int) : PartName → Prop
  | .hourPart _ suffix => ∃ k, k < attempts ∧ suffix = env.suffixNs k
  | .part suffix => suffix ∈ used
  | .compacted suffix => suffix ∈ used

/-- In `t` the writer has its tree for itself, in `s` others write as well. -/
structure Mirrors (env : WriteEnv) (used : List Int) (written : Multiset (Partition × ρ))
    (s t : WriterRun ρ) : Prop where
  buffers : s.buffers = t.buffers
  attempts : s.attempts = t.attempts
  located : s.files.located = t.files.located + written
  names : ∀ path ∈ s.files.keys, NameUsed env s.attempts used path.name
  namesAlone : NamesUsed env t

section Mirrors

variable {env : WriteEnv} {used : List Int} {written : Multiset (Partition × ρ)}
variable {s t : WriterRun ρ}

omit [Row ρ] in
lemma NameUsed.mono {n m : ℕ} (hle : n ≤ m) {used' : List Int} (hsub : used ⊆ used') :
    ∀ {name : PartName}, NameUsed env n used name → NameUsed env m used' name
  | .hourPart _ _, ⟨k, hk, heq⟩ => ⟨k, lt_of_lt_of_le hk hle, heq⟩
  | .part _, h => hsub h
  | .compacted _, h => hsub h

lemma Mirrors.fresh (h : Mirrors env used written s t) (key : Key) (first : ρ) :
    partFile key first (env.suffixNs s.attempts) ∉ s.files.keys := by
  intro hmem
  rcases h.names _ hmem with ⟨k, hk, heq⟩
  have hsame : s.attempts = k := env.suffix_injective heq
  exact absurd hk (by rw [hsame]; exact lt_irrefl k)

lemma Mirrors.flushKey (h : Mirrors env used written s t) (key : Key) :
    Mirrors env used written (flushKey env s key).1 (flushKey env t key).1 ∧
      (CryptoData.flushKey env s key).2 = (CryptoData.flushKey env t key).2 := by
  have hpop : poppedRows s key = poppedRows t key := by
    rw [poppedRows, h.buffers]
    rfl
  have hle : s.attempts ≤ s.attempts + 1 := Nat.le_succ _
  have hnames := (flushKey_ledger h.namesAlone key).names
  cases hrows : poppedRows s key with
  | nil =>
      have hrows' := hpop.symm.trans hrows
      rw [flushKey_of_nil hrows'] at hnames
      rw [flushKey_of_nil hrows, flushKey_of_nil hrows']
      refine ⟨⟨?_, h.attempts, h.located, h.names, hnames⟩, rfl⟩
      rw [h.buffers]
  | cons first rest =>
      have hrows' := hpop.symm.trans hrows
      cases hfailure : env.failure s.attempts with
      | some failure =>
          have hfailure' : env.failure t.attempts = some failure := by rw [← h.attempts, hfailure]
          rw [flushKey_of_failure hrows' hfailure'] at hnames
          rw [flushKey_of_failure hrows hfailure, flushKey_of_failure hrows' hfailure']
          refine ⟨⟨?_, ?_, h.located, ?_, hnames⟩, rfl⟩
          · rw [h.buffers]
          · rw [h.attempts]
          · intro path hpath
            exact (h.names path hpath).mono hle (List.Subset.refl _)
      | none =>
          have hfailure' : env.failure t.attempts = none := by rw [← h.attempts, hfailure]
          have hfresh' := h.namesAlone.fresh key first
          rw [flushKey_of_write hrows' hfailure'] at hnames
          rw [flushKey_of_write hrows hfailure, flushKey_of_write hrows' hfailure']
          refine ⟨⟨?_, ?_, ?_, ?_, hnames⟩, rfl⟩
          · rw [h.buffers]
          · rw [h.attempts]
          · have hboth := Store.located_write (h.fresh key first) (first :: rest)
            have halone := Store.located_write hfresh' (first :: rest)
            rw [hboth, halone, h.located, h.attempts, add_assoc]
          · intro path hpath
            rcases Dict.mem_keys_set.1 hpath with rfl | hold
            · exact ⟨s.attempts, Nat.lt_succ_self _, rfl⟩
            · exact (h.names path hold).mono hle (List.Subset.refl _)

lemma Mirrors.flushKeys :
    ∀ (keys : List Key) {s t : WriterRun ρ}, Mirrors env used written s t →
      Mirrors env used written (flushKeys env keys s).1 (flushKeys env keys t).1
  | [], _, _, h => h
  | key :: keys, s, t, h => by
      have hfirst := h.flushKey key
      cases hs : CryptoData.flushKey env s key with
      | mk s' failure =>
          cases ht : CryptoData.flushKey env t key with
          | mk t' failure' =>
              rw [hs, ht] at hfirst
              rcases hfirst with ⟨hmirrors, hfailure⟩
              simp only at hfailure
              subst hfailure
              cases failure with
              | some failure =>
                  simp only [CryptoData.flushKeys, hs, ht]
                  exact hmirrors
              | none =>
                  simp only [CryptoData.flushKeys, hs, ht]
                  exact Mirrors.flushKeys keys hmirrors

lemma Mirrors.runCall (cfg : WriterConfig) (h : Mirrors env used written s t) (c : WriterCall ρ) :
    Mirrors env used written (runCall env cfg s c).1 (runCall env cfg t c).1 := by
  cases c with
  | flushAll =>
      have hkeys : s.buffers.keys = t.buffers.keys := by rw [h.buffers]
      simp only [CryptoData.runCall, flushAll]
      rw [hkeys]
      exact h.flushKeys _
  | append table row openedNs checkedNs =>
      let out := lockedAppend cfg t.buffers table row openedNs checkedNs
      have hlocked : Mirrors env used written { s with buffers := out.1 }
          { t with buffers := out.1 } :=
        ⟨rfl, h.attempts, h.located, h.names, h.namesAlone⟩
      simp only [CryptoData.runCall, appendRow, h.buffers]
      split_ifs with hflush
      · exact (hlocked.flushKey _).1
      · exact hlocked

omit [Row ρ] in
/-- What the others do is added. -/
lemma Mirrors.write (h : Mirrors env used written s t) (table : String) (rows : List ρ)
    (symbol venue date : String) {suffixNs : Int} (hnew : suffixNs ∉ used) :
    Mirrors env (suffixNs :: used)
      (written + StorageEvent.written (.writeDataframe table rows symbol venue date suffixNs))
      { s with files := s.files.write ⟨⟨table, symbol, venue, date⟩, .part suffixNs⟩ rows } t := by
  have hfresh : (⟨⟨table, symbol, venue, date⟩, .part suffixNs⟩ : PartPath) ∉ s.files.keys :=
    fun hmem => hnew (h.names _ hmem)
  refine ⟨h.buffers, h.attempts, ?_, ?_, h.namesAlone⟩
  · have hwrite := Store.located_write hfresh rows
    simp only [hwrite, StorageEvent.written]
    rw [h.located, add_comm, add_assoc]
  · intro path hpath
    rcases Dict.mem_keys_set.1 hpath with rfl | hold
    · exact List.mem_cons_self
    · exact (h.names path hold).mono le_rfl (List.subset_cons_self _ _)

omit [Row ρ] in
/-- Compactions leave every row in its directory. -/
lemma Mirrors.compact (h : Mirrors env used written s t) (partition : Partition) {nowNs : Int}
    (hnew : nowNs ∉ used) :
    Mirrors env (nowNs :: used) written
      { s with files := (compactPartition s.files partition nowNs).1 } t := by
  have hfresh : (⟨partition, .compacted nowNs⟩ : PartPath) ∉ s.files.keys :=
    fun hmem => hnew (h.names _ hmem)
  refine ⟨h.buffers, h.attempts, ?_, ?_, h.namesAlone⟩
  · exact (compactPartition_located hfresh).trans h.located
  · intro path hpath
    rcases mem_keys_compactPartition hpath with rfl | hold
    · exact List.mem_cons_self
    · exact (h.names path hold).mono le_rfl (List.subset_cons_self _ _)

lemma not_mem_cons_of_nodup {n : Int} {later : List Int} (hnodup : (n :: later).Nodup)
    (hnew : ∀ m ∈ n :: later, m ∉ used) : ∀ m ∈ later, m ∉ n :: used := by
  intro m hm hmem
  rcases List.mem_cons.1 hmem with heq | hold
  · subst heq
    exact (List.nodup_cons.1 hnodup).1 hm
  · exact hnew m (List.mem_cons_of_mem n hm) hold

/-- A stretch of events, with readings that are new and differ. -/
lemma Mirrors.run (cfg : WriterConfig) :
    ∀ (events : List (StorageEvent ρ)) {used : List Int} {written : Multiset (Partition × ρ)}
      {s t : WriterRun ρ}, Mirrors env used written s t → (readingsIn events).Nodup →
        (∀ n ∈ readingsIn events, n ∉ used) →
          ∃ used', Mirrors env used' (written + writtenIn events)
            (events.foldl (storageStep env cfg) s)
            ((callsIn events).foldl (fun t c => (CryptoData.runCall env cfg t c).1) t)
  | [], used, written, s, t, h, _, _ => by
      have hnone : written + writtenIn ([] : List (StorageEvent ρ)) = written := add_zero _
      rw [hnone]
      exact ⟨used, h⟩
  | .call c :: events, used, written, s, t, h, hnodup, hnew => by
      have hwritten : writtenIn (.call c :: events) = writtenIn events := zero_add _
      rw [hwritten]
      exact Mirrors.run cfg events (h.runCall cfg c) hnodup hnew
  | .writeDataframe table rows symbol venue date n :: events, used, written, s, t, h, hnodup,
      hnew => by
      have hfirst := h.write table rows symbol venue date (hnew n List.mem_cons_self)
      have hrest := Mirrors.run cfg events hfirst (List.nodup_cons.1 hnodup).2
        (not_mem_cons_of_nodup hnodup hnew)
      rw [add_assoc] at hrest
      exact hrest
  | .compact partition n :: events, used, written, s, t, h, hnodup, hnew => by
      have hwritten : writtenIn (.compact partition n :: events) = writtenIn events := zero_add _
      rw [hwritten]
      exact Mirrors.run cfg events (h.compact partition (hnew n List.mem_cons_self))
        (List.nodup_cons.1 hnodup).2 (not_mem_cons_of_nodup hnodup hnew)

/-- The writer does what it does alone, and the tree holds what both have written. -/
theorem runStorage_mirrors (env : WriteEnv) (cfg : WriterConfig) (events : List (StorageEvent ρ))
    (hreadings : (readingsIn events).Nodup) :
    ∃ used, Mirrors env used (writtenIn events) (runStorage env cfg events)
      (runCalls env cfg (callsIn events)) := by
  have hinit : Mirrors env [] 0 (WriterRun.init : WriterRun ρ) WriterRun.init :=
    ⟨rfl, rfl, rfl, fun _ hpath => absurd hpath List.not_mem_nil,
      fun _ hpath => absurd hpath List.not_mem_nil⟩
  rcases hinit.run cfg events hreadings fun _ _ => List.not_mem_nil with ⟨used, hrun⟩
  rw [zero_add] at hrun
  exact ⟨used, hrun⟩

end Mirrors

/-! ## The directories of the writer's rows -/

section Placed

variable {env : WriteEnv} {cfg : WriterConfig}

/-- Buffered rows sit under their keys, filed ones in their directories. -/
structure Homed (s : WriterRun ρ) : Prop where
  keyed : Keyed s.buffers
  filed : ∀ path rows, s.files.get? path = some rows → ∀ r ∈ rows, FiledRight path r

lemma Homed.flushKey (env : WriteEnv) {s : WriterRun ρ} (h : Homed s) (key : Key) :
    Homed (flushKey env s key).1 := by
  have hkeyed := keyed_lockedPop h.keyed key
  cases hrows : poppedRows s key with
  | nil =>
      rw [flushKey_of_nil hrows]
      exact ⟨hkeyed, h.filed⟩
  | cons first rest =>
      cases hfailure : env.failure s.attempts with
      | some failure =>
          rw [flushKey_of_failure hrows hfailure]
          exact ⟨hkeyed, h.filed⟩
      | none =>
          rw [flushKey_of_write hrows hfailure]
          refine ⟨hkeyed, ?_⟩
          have hpopped : ∀ r ∈ first :: rest, keyOf key.table r = key := by
            intro r hr
            rw [← hrows] at hr
            cases hget : s.buffers.get? key with
            | none => simp [poppedRows, lockedPop, hget] at hr
            | some buf =>
                simp only [poppedRows, lockedPop, hget, Option.elim] at hr
                exact h.keyed key buf hget r hr
          intro path rows hget
          by_cases hpath : path = partFile key first (env.suffixNs s.attempts)
          · subst hpath
            cases Option.some.inj ((Dict.get?_set_self s.files _ _).symm.trans hget)
            exact filedRight_partFile _ hpopped
          · exact h.filed path rows ((Dict.get?_set_ne s.files _ hpath).symm.trans hget)

lemma Homed.flushKeys (env : WriteEnv) :
    ∀ (keys : List Key) {s : WriterRun ρ}, Homed s → Homed (flushKeys env keys s).1
  | [], _, h => h
  | key :: keys, s, h => by
      have hfirst := h.flushKey env key
      cases hkey : CryptoData.flushKey env s key with
      | mk s' failure =>
          rw [hkey] at hfirst
          cases failure with
          | some failure => simpa only [CryptoData.flushKeys, hkey] using hfirst
          | none =>
              simp only [CryptoData.flushKeys, hkey]
              exact Homed.flushKeys env keys hfirst

lemma Homed.runCall {s : WriterRun ρ} (h : Homed s) (c : WriterCall ρ) :
    Homed (runCall env cfg s c).1 := by
  cases c with
  | flushAll => exact Homed.flushKeys env s.buffers.keys h
  | append table row openedNs checkedNs =>
      have hlocked : Homed { s with
          buffers := (lockedAppend cfg s.buffers table row openedNs checkedNs).1 } :=
        ⟨keyed_lockedAppend cfg h.keyed table row openedNs checkedNs, h.filed⟩
      simp only [CryptoData.runCall, appendRow]
      split_ifs
      · exact hlocked.flushKey env _
      · exact hlocked

lemma homed_foldl :
    ∀ (calls : List (WriterCall ρ)) {s : WriterRun ρ}, Homed s →
      Homed (calls.foldl (fun s c => (runCall env cfg s c).1) s)
  | [], _, h => h
  | c :: calls, _, h => homed_foldl calls (h.runCall c)

lemma homed_runCalls (env : WriteEnv) (cfg : WriterConfig) (calls : List (WriterCall ρ)) :
    Homed (runCalls env cfg calls) := by
  refine homed_foldl calls ⟨?_, ?_⟩
  · intro key buf hget
    cases hget
  · intro path rows hget
    cases hget

lemma placed_of_filedRight {path : PartPath} {r : ρ} (h : FiledRight path r) :
    placed (path.partition.table, r) = (path.partition, r) := by
  simp only [placed, ← h.symbol, ← h.venue, ← h.date]

/-- Where rows are filed right, the directories follow from the rows. -/
lemma located_eq_map_placed {files : Store ρ}
    (h : ∀ path rows, files.get? path = some rows → ∀ r ∈ rows, FiledRight path r) :
    files.located = (filed files).map placed := by
  have hentry : ∀ e ∈ files.entries, ∀ r ∈ e.2, placed (e.1.partition.table, r) =
      (e.1.partition, r) := by
    intro e he r hr
    exact placed_of_filedRight (h e.1 e.2 (Dict.get?_eq_some_iff.2 he) r hr)
  revert hentry
  unfold Store.located CryptoData.filed Dict.measure
  induction files.entries with
  | nil => exact fun _ => rfl
  | cons e es ih =>
      intro hentry
      have hfirst : (tagged e.1.partition.table e.2).map placed =
          (e.2.map fun r => (e.1.partition, r) : List (Partition × ρ)) := by
        rw [tagged, Multiset.map_coe, List.map_map]
        exact congrArg _ (List.map_congr_left fun r hr => hentry e List.mem_cons_self r hr)
      rw [List.map_cons, List.sum_cons, List.map_cons, List.sum_cons, Multiset.map_add, hfirst,
        ih fun e' he' => hentry e' (List.mem_cons_of_mem e he')]

lemma located_runCalls (env : WriteEnv) (cfg : WriterConfig) (calls : List (WriterCall ρ)) :
    (runCalls env cfg calls).files.located = (filed (runCalls env cfg calls).files).map placed :=
  located_eq_map_placed (homed_runCalls env cfg calls).filed

lemma placed_injective : Function.Injective (placed : String × ρ → Partition × ρ) := by
  intro a b hab
  have hrow : a.2 = b.2 := congrArg (fun p : Partition × ρ => p.2) hab
  have htable : a.1 = b.1 := congrArg (fun p : Partition × ρ => p.1.table) hab
  exact Prod.ext htable hrow

end Placed

/-! ## After a flush -/

/-- The calls up to a final `flush_all`, with the writer alone. -/
lemma filed_after_flush_iff (env : WriteEnv) (cfg : WriterConfig) (calls : List (WriterCall ρ)) :
    filed (runCalls env cfg (calls ++ [.flushAll])).files = accepted calls ↔
      NoFailure env 0 (runCalls env cfg (calls ++ [.flushAll])).attempts := by
  let s := runCalls env cfg calls
  have hrun : runCalls env cfg (calls ++ [.flushAll]) = (flushAll env s).1 :=
    List.foldl_concat _ _ _ _
  have hledger := runCalls_ledger env cfg calls
  have hflush := flushAll_ledger hledger.names
  rcases (hledger.trans hflush).balance with ⟨lost, hsafe, hlost⟩
  have hbooks : accepted calls = (flushAll env s).1.safe + lost := by
    rw [← hsafe, add_zero]
    exact (zero_add _).symm
  rw [hrun, hbooks, WriterRun.safe]
  constructor
  · intro hfiled
    have hnone : buffered (flushAll env s).1.buffers + lost = 0 := by
      refine add_left_cancel (a := filed (flushAll env s).1.files) ?_
      rw [add_zero, ← add_assoc, add_comm (filed _) (buffered _)]
      exact hfiled.symm
    exact hlost.1 (add_eq_zero.1 hnone).2
  · intro hok
    have hquiet := flushAll_of_noFailure hledger.names le_rfl hok
    rw [hlost.2 hok, buffered_of_keys_nil (flushAll_drains hquiet), zero_add, add_zero]

/-- Nothing lies in the files that was not handed over. -/
lemma filed_le_accepted (env : WriteEnv) (cfg : WriterConfig) (calls : List (WriterCall ρ)) :
    filed (runCalls env cfg calls).files ≤ accepted calls := by
  rcases (runCalls_ledger env cfg calls).balance with ⟨lost, hsafe, _⟩
  have hbooks : accepted calls = (runCalls env cfg calls).safe + lost := by
    rw [← hsafe]
    exact (zero_add _).symm
  rw [hbooks, WriterRun.safe, add_comm (buffered _), add_assoc]
  exact Multiset.le_add_right _ _

/-- After a `flush_all` the tree holds all that was handed to it, in the right directories, exactly
if no flush has failed. -/
theorem located_after_flush_iff (env : WriteEnv) (cfg : WriterConfig)
    (events : List (StorageEvent ρ)) (hreadings : (readingsIn events).Nodup) :
    (runStorage env cfg (events ++ [.call .flushAll])).files.located = storedBy events ↔
      NoFailure env 0 (runStorage env cfg (events ++ [.call .flushAll])).attempts := by
  have hcalls : callsIn (events ++ [.call .flushAll]) = callsIn events ++ [.flushAll] :=
    List.filterMap_append
  have hsame : readingsIn (events ++ [.call .flushAll]) = readingsIn events :=
    List.filterMap_append.trans (List.append_nil _)
  have hwritten : writtenIn (events ++ [.call .flushAll]) = writtenIn events := by
    rw [writtenIn, List.map_append, List.sum_append]
    exact add_zero _
  rcases runStorage_mirrors env cfg (events ++ [.call .flushAll]) (by rw [hsame]; exact hreadings)
    with ⟨used, hmirrors⟩
  have hlocated := hmirrors.located
  rw [hcalls, located_runCalls, hwritten] at hlocated
  rw [hlocated, storedBy, hmirrors.attempts, hcalls, ← filed_after_flush_iff]
  constructor
  · intro h
    exact Multiset.map_injective placed_injective (add_right_cancel h)
  · intro h
    rw [h]

/-- The tree never holds more than was stored. -/
lemma located_le_storedBy (env : WriteEnv) (cfg : WriterConfig)
    (events : List (StorageEvent ρ)) (hreadings : (readingsIn events).Nodup) :
    (runStorage env cfg events).files.located ≤ storedBy events := by
  rcases runStorage_mirrors env cfg events hreadings with ⟨used, hmirrors⟩
  rw [hmirrors.located, located_runCalls, storedBy]
  exact add_le_add_left (Multiset.map_le_map (filed_le_accepted env cfg _)) _

/-! ## What every row satisfies -/

section Every

variable {P : ρ → Prop} {env : WriteEnv} {cfg : WriterConfig}

/-- A property of all rows, in memory and in the files. -/
structure EveryRow (P : ρ → Prop) (s : WriterRun ρ) : Prop where
  buffered : ∀ key buf, s.buffers.get? key = some buf → ∀ r ∈ buf.rows, P r
  filed : ∀ path rows, s.files.get? path = some rows → ∀ r ∈ rows, P r

omit [Row ρ] in
lemma forall_rows_write {files : Store ρ}
    (h : ∀ path rows, files.get? path = some rows → ∀ r ∈ rows, P r) (path : PartPath)
    {rows : List ρ} (hrows : ∀ r ∈ rows, P r) :
    ∀ path' rows', (files.write path rows).get? path' = some rows' → ∀ r ∈ rows', P r := by
  intro path' rows' hget
  by_cases hpath : path' = path
  · subst hpath
    cases Option.some.inj ((Dict.get?_set_self files _ _).symm.trans hget)
    exact hrows
  · exact h path' rows' ((Dict.get?_set_ne files _ hpath).symm.trans hget)

omit [Row ρ] in
/-- A merged file has the rows of the files that it replaces. -/
lemma forall_rows_compact {files : Store ρ}
    (h : ∀ path rows, files.get? path = some rows → ∀ r ∈ rows, P r) (partition : Partition)
    (now : Int) :
    ∀ path rows, (compactPartition files partition now).1.get? path = some rows →
      ∀ r ∈ rows, P r := by
  have hmerged : ∀ names, ∀ r ∈ files.readNames partition names, P r := by
    intro names r hr
    rcases List.mem_flatMap.1 hr with ⟨name, _, hin⟩
    cases hget : files.get? ⟨partition, name⟩ with
    | none => simp [Dict.getD, hget] at hin
    | some rows =>
        rw [Dict.getD, hget, Option.getD_some] at hin
        exact h _ rows hget r hin
  intro path rows hget
  simp only [compactPartition] at hget
  split_ifs at hget
  · exact h path rows hget
  · have hkept : path ∉ (files.sortedNames partition PartName.isPart).map
        fun name => PartPath.mk partition name := by
      have hkey := Dict.mem_keys_of_mem (Dict.get?_eq_some_iff.1 hget)
      rw [Dict.keys_foldl_erase] at hkey
      exact of_decide_eq_true (List.mem_filter.1 hkey).2
    rw [Dict.get?_foldl_erase _ _ hkept] at hget
    exact forall_rows_write h _ (hmerged _) path rows hget

lemma forall_rows_lockedAppend (cfg : WriterConfig) {buffers : Buffers ρ}
    (h : ∀ key buf, buffers.get? key = some buf → ∀ r ∈ buf.rows, P r) (table : String) {row : ρ}
    (hrow : P row) (openedNs checkedNs : Int) :
    ∀ key buf, (lockedAppend cfg buffers table row openedNs checkedNs).1.get? key = some buf →
      ∀ r ∈ buf.rows, P r := by
  intro key buf hget r hr
  by_cases hkey : key = keyOf table row
  · subst hkey
    have hbuf := Option.some.inj ((Dict.get?_set_self buffers _ _).symm.trans hget)
    subst hbuf
    rcases List.mem_append.1 hr with hold | hnew
    · cases hprev : buffers.get? (keyOf table row) with
      | none => simp [hprev] at hold
      | some b =>
          rw [hprev] at hold
          exact h (keyOf table row) b hprev r hold
    · rw [List.mem_singleton.1 hnew]
      exact hrow
  · exact h key buf ((Dict.get?_set_ne buffers _ hkey).symm.trans hget) r hr

lemma EveryRow.flushKey (env : WriteEnv) {s : WriterRun ρ} (h : EveryRow P s) (key : Key) :
    EveryRow P (flushKey env s key).1 := by
  have hbuffered : ∀ key' buf, (lockedPop s.buffers key).1.get? key' = some buf →
      ∀ r ∈ buf.rows, P r := fun key' buf hget => h.buffered key' buf
    (Dict.get?_eq_some_iff.2 (Dict.mem_erase_iff.1 (Dict.get?_eq_some_iff.1 hget)).2)
  cases hrows : poppedRows s key with
  | nil =>
      rw [flushKey_of_nil hrows]
      exact ⟨hbuffered, h.filed⟩
  | cons first rest =>
      cases hfailure : env.failure s.attempts with
      | some failure =>
          rw [flushKey_of_failure hrows hfailure]
          exact ⟨hbuffered, h.filed⟩
      | none =>
          rw [flushKey_of_write hrows hfailure]
          refine ⟨hbuffered, forall_rows_write h.filed _ ?_⟩
          intro r hr
          rw [← hrows] at hr
          cases hget : s.buffers.get? key with
          | none => simp [poppedRows, lockedPop, hget] at hr
          | some buf =>
              simp only [poppedRows, lockedPop, hget, Option.elim] at hr
              exact h.buffered key buf hget r hr

lemma EveryRow.flushKeys (env : WriteEnv) :
    ∀ (keys : List Key) {s : WriterRun ρ}, EveryRow P s → EveryRow P (flushKeys env keys s).1
  | [], _, h => h
  | key :: keys, s, h => by
      have hfirst := h.flushKey env key
      cases hkey : CryptoData.flushKey env s key with
      | mk s' failure =>
          rw [hkey] at hfirst
          cases failure with
          | some failure => simpa only [CryptoData.flushKeys, hkey] using hfirst
          | none =>
              simp only [CryptoData.flushKeys, hkey]
              exact EveryRow.flushKeys env keys hfirst

/-- One event, whose own rows have the property. -/
lemma EveryRow.storageStep {s : WriterRun ρ} (h : EveryRow P s) (e : StorageEvent ρ)
    (hown : ∀ row ∈ storedBy [e], P row.2) : EveryRow P (storageStep env cfg s e) := by
  cases e with
  | call c =>
      cases c with
      | flushAll => exact EveryRow.flushKeys env s.buffers.keys h
      | append table row openedNs checkedNs =>
          have hrow : P row := hown (placed (table, row)) (by
            simp [storedBy, callsIn, writtenIn, accepted, acceptedBy, StorageEvent.call?,
              StorageEvent.written])
          have hlocked : EveryRow P { s with
              buffers := (lockedAppend cfg s.buffers table row openedNs checkedNs).1 } :=
            ⟨forall_rows_lockedAppend cfg h.buffered table hrow openedNs checkedNs, h.filed⟩
          simp only [CryptoData.storageStep, CryptoData.runCall, appendRow]
          split_ifs
          · exact hlocked.flushKey env _
          · exact hlocked
  | writeDataframe table rows symbol venue date suffixNs =>
      refine ⟨h.buffered, forall_rows_write h.filed _ ?_⟩
      intro r hr
      exact hown (⟨table, symbol, venue, date⟩, r) (by
        simp [storedBy, callsIn, writtenIn, accepted, StorageEvent.call?, StorageEvent.written, hr])
  | compact partition nowNs => exact ⟨h.buffered, forall_rows_compact h.filed partition nowNs⟩

lemma storedBy_cons (e : StorageEvent ρ) (events : List (StorageEvent ρ)) :
    storedBy (e :: events) = storedBy [e] + storedBy events := by
  have hcalls : callsIn (e :: events) = callsIn [e] ++ callsIn events := by
    rw [← List.singleton_append]
    exact List.filterMap_append
  have haccepted : accepted (callsIn (e :: events)) =
      accepted (callsIn [e]) + accepted (callsIn events) := by
    rw [hcalls, accepted, List.map_append, List.sum_append]
    rfl
  have hwritten : writtenIn (e :: events) = writtenIn [e] + writtenIn events := by
    simp [writtenIn]
  rw [storedBy, haccepted, hwritten, Multiset.map_add, add_add_add_comm]
  rfl

lemma EveryRow.run :
    ∀ (events : List (StorageEvent ρ)) {s : WriterRun ρ}, EveryRow P s →
      (∀ row ∈ storedBy events, P row.2) →
        EveryRow P (events.foldl (CryptoData.storageStep env cfg) s)
  | [], _, h, _ => h
  | e :: events, s, h, hown => by
      rw [storedBy_cons] at hown
      refine EveryRow.run events (h.storageStep e ?_) ?_
      · exact fun row hrow => hown row (Multiset.mem_add.2 (Or.inl hrow))
      · exact fun row hrow => hown row (Multiset.mem_add.2 (Or.inr hrow))

/-- What all stored rows satisfy, all rows in the tree satisfy, whatever readings the names carry. -/
theorem forall_located_of_storedBy (events : List (StorageEvent ρ))
    (h : ∀ row ∈ storedBy events, P row.2) :
    ∀ row ∈ (runStorage env cfg events).files.located, P row.2 := by
  have hinit : EveryRow P (WriterRun.init : WriterRun ρ) :=
    ⟨fun _ _ hget => (by cases hget), fun _ _ hget => (by cases hget)⟩
  have hrun : EveryRow P (runStorage env cfg events) := hinit.run events h
  rintro ⟨partition, r⟩ hrow
  rcases Store.mem_located_iff.1 hrow with ⟨name, rows, hget, hr⟩
  exact hrun.filed _ rows hget r hr

end Every

end CryptoData
