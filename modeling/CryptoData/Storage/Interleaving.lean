import CryptoData.Foundation.TaskPool
import CryptoData.Storage.Writer
import Mathlib.Logic.Relation

/-!
# Interleaving — many threads on one writer

A call of the writer is a stack of tasks that are atomic because they run under the lock or touch
only a new file: the locked section of `append`, the key snapshot of `flush_all`, the locked pop of
`_flush_key`, and the file write.  Threads interleave at task boundaries.

In every reachable state the rows appended so far are the rows in buffers, the rows of popped
buffers that are not written yet, and the rows in part files; every filed row is in the right
place; and a last `flush_all` moves everything to files (`writer_exactly_once`).
-/

namespace CryptoData

open Foundation

variable {ρ : Type*} [Row ρ]

/-! ## Tasks -/

inductive WriterTask (ρ : Type*)
  | append (table : String) (row : ρ)
  | snapshot
  | pop (key : Key)
  | write (key : Key) (first : ρ) (rest : List ρ)

/-- The writer, its files, and the rows appended so far. -/
structure WriterState (ρ : Type*) where
  buffers : Buffers ρ
  files : Store ρ
  appended : Multiset (String × ρ)

def WriterState.init : WriterState ρ :=
  ⟨Dict.empty, Dict.empty, 0⟩

/-- `if buf is None or not buf.rows: return`, otherwise the rows are to be written. -/
def afterPop (key : Key) : Option (Buffer ρ) → List (WriterTask ρ)
  | none => []
  | some buf =>
      match buf.rows with
      | [] => []
      | first :: rest => [.write key first rest]

/-- What one task does.  Clock readings are arbitrary, except that the reading in a part name has
not been used before. -/
inductive Runs (cfg : WriterConfig) : WriterTask ρ → WriterState ρ → WriterState ρ →
    List (WriterTask ρ) → Prop
  | append (table : String) (row : ρ) (s : WriterState ρ) (openedNs checkedNs : Int) :
      Runs cfg (.append table row) s
        { s with
          buffers := (lockedAppend cfg s.buffers table row openedNs checkedNs).1
          appended := s.appended + {(table, row)} }
        (if (lockedAppend cfg s.buffers table row openedNs checkedNs).2 then
          [.pop (keyOf table row)] else [])
  | snapshot (s : WriterState ρ) : Runs cfg .snapshot s s (s.buffers.keys.map .pop)
  | pop (key : Key) (s : WriterState ρ) :
      Runs cfg (.pop key) s { s with buffers := (lockedPop s.buffers key).1 }
        (afterPop key (lockedPop s.buffers key).2)
  | write (key : Key) (first : ρ) (rest : List ρ) (s : WriterState ρ) (suffixNs : Int)
      (fresh : ∀ path ∈ s.files.keys, path.name.suffix ≠ suffixNs) :
      Runs cfg (.write key first rest) s
        { s with files := s.files.write (partFile key first suffixNs) (first :: rest) } []

/-- The tasks that the three public methods start with. -/
inductive IsCall : List (WriterTask ρ) → Prop
  | append (table : String) (row : ρ) : IsCall [.append table row]
  | appendMany (table : String) (rows : List ρ) : IsCall (rows.map (.append table))
  | flushAll : IsCall [.snapshot]

omit [Row ρ] in
/-- A call starts with appends and key snapshots only. -/
lemma IsCall.cases_of_mem {ts : List (WriterTask ρ)} (h : IsCall ts) {t : WriterTask ρ}
    (ht : t ∈ ts) : (∃ table row, t = .append table row) ∨ t = .snapshot := by
  cases h with
  | append table row => exact Or.inl ⟨table, row, List.mem_singleton.1 ht⟩
  | appendMany table rows =>
      rcases List.mem_map.1 ht with ⟨row, _, rfl⟩
      exact Or.inl ⟨table, row, rfl⟩
  | flushAll => exact Or.inr (List.mem_singleton.1 ht)

omit [Row ρ] in
/-- What an append leaves to do is at most one pop. -/
lemma eq_pop_of_mem_ite {flush : Bool} {key : Key} {t : WriterTask ρ}
    (h : t ∈ if flush then [WriterTask.pop key] else []) : t = .pop key := by
  cases flush with
  | true => exact List.mem_singleton.1 h
  | false => cases h

/-- The writer under any number of threads. -/
abbrev WriterPool (ρ ι : Type*) := Pool (WriterState ρ) (WriterTask ρ) ι

/-! ## Conservation -/

/-- The rows that a pending task has taken out of the buffers. -/
def taskRows : WriterTask ρ → Multiset (String × ρ)
  | .write key first rest => tagged key.table (first :: rest)
  | _ => 0

/-- The rows held by flushes in progress. -/
def heldRows {ι : Type*} [Fintype ι] (p : WriterPool ρ ι) : Multiset (String × ρ) :=
  Pool.held taskRows p

omit [Row ρ] in
lemma weightOf_afterPop (key : Key) (popped : Option (Buffer ρ)) :
    Pool.weightOf taskRows (afterPop key popped) =
      popped.elim 0 fun buf => tagged key.table buf.rows := by
  cases popped with
  | none => rfl
  | some buf =>
      cases hrows : buf.rows with
      | nil => simp [afterPop, hrows, Pool.weightOf, tagged]
      | cons first rest => simp [afterPop, hrows, Pool.weightOf, taskRows]

lemma fresh_partFile {files : Store ρ} {suffixNs : Int}
    (hfresh : ∀ path ∈ files.keys, path.name.suffix ≠ suffixNs) (key : Key) (first : ρ) :
    partFile key first suffixNs ∉ files.keys := by
  intro hmem
  exact hfresh _ hmem rfl

/-- Each task moves rows between the input, the buffers, its thread and the files. -/
lemma runs_balance {cfg : WriterConfig} {t : WriterTask ρ} {s s' : WriterState ρ}
    {spawned : List (WriterTask ρ)} (h : Runs cfg t s s' spawned) :
    s'.appended + ((buffered s.buffers + filed s.files) + taskRows t) =
      s.appended +
        ((buffered s'.buffers + filed s'.files) + Pool.weightOf taskRows spawned) := by
  cases h with
  | append table row s openedNs checkedNs =>
      -- The row comes in and goes to a buffer; the pop that may follow holds nothing.
      have hspawned : Pool.weightOf taskRows
          (if (lockedAppend cfg s.buffers table row openedNs checkedNs).2 then
            [WriterTask.pop (keyOf table row)] else []) = (0 : Multiset (String × ρ)) := by
        refine Pool.weightOf_eq_zero ?_
        intro t ht
        rw [eq_pop_of_mem_ite ht]
        rfl
      simp only [hspawned, buffered_lockedAppend, taskRows]
      abel
  | snapshot s =>
      have hspawned : Pool.weightOf taskRows (s.buffers.keys.map WriterTask.pop) =
          (0 : Multiset (String × ρ)) := by
        refine Pool.weightOf_eq_zero ?_
        intro t ht
        rcases List.mem_map.1 ht with ⟨key, _, rfl⟩
        rfl
      rw [hspawned]
      rfl
  | pop key s =>
      -- The popped rows go from the buffers to the write that follows.
      have hpop := buffered_lockedPop s.buffers key
      simp only [weightOf_afterPop, taskRows]
      rw [hpop]
      abel
  | write key first rest s suffixNs hfresh =>
      have hwrite := filed_write (fresh_partFile hfresh key first) (first :: rest)
      simp only [hwrite, taskRows, Pool.weightOf, List.map_nil, List.sum_nil]
      simp only [partFile]
      abel

omit [Row ρ] in
lemma taskRows_call {ts : List (WriterTask ρ)} (h : IsCall ts) : ∀ t ∈ ts, taskRows t = 0 := by
  intro t ht
  rcases h.cases_of_mem ht with ⟨table, row, rfl⟩ | rfl
  · rfl
  · rfl

/-! ## Placement -/

/-- Buffered rows sit under their keys and filed rows are in the right place. -/
structure WellPlaced (s : WriterState ρ) : Prop where
  keyed : Keyed s.buffers
  placed : ∀ path rows, s.files.get? path = some rows → ∀ r ∈ rows, FiledRight path r

/-- The rows that a pending write carries share its key. -/
def CarriesKeyed : WriterTask ρ → Prop
  | .write key first rest => ∀ r ∈ first :: rest, keyOf key.table r = key
  | _ => True

lemma carriesKeyed_call {ts : List (WriterTask ρ)} (h : IsCall ts) : ∀ t ∈ ts, CarriesKeyed t := by
  intro t ht
  rcases h.cases_of_mem ht with ⟨table, row, rfl⟩ | rfl
  · trivial
  · trivial

lemma runs_wellPlaced {cfg : WriterConfig} {t : WriterTask ρ} {s s' : WriterState ρ}
    {spawned : List (WriterTask ρ)} (hs : WellPlaced s) (ht : CarriesKeyed t)
    (h : Runs cfg t s s' spawned) : WellPlaced s' ∧ ∀ u ∈ spawned, CarriesKeyed u := by
  cases h with
  | append table row s openedNs checkedNs =>
      refine ⟨⟨keyed_lockedAppend cfg hs.keyed table row openedNs checkedNs, hs.placed⟩, ?_⟩
      intro u hu
      rw [eq_pop_of_mem_ite hu]
      trivial
  | snapshot s =>
      refine ⟨hs, ?_⟩
      intro u hu
      rcases List.mem_map.1 hu with ⟨key, _, rfl⟩
      trivial
  | pop key s =>
      refine ⟨⟨keyed_lockedPop hs.keyed key, hs.placed⟩, ?_⟩
      intro u hu
      cases hget : s.buffers.get? key with
      | none =>
          simp only [lockedPop, hget, afterPop] at hu
          cases hu
      | some buf =>
          cases hrows : buf.rows with
          | nil =>
              simp only [lockedPop, hget, afterPop, hrows] at hu
              cases hu
          | cons first rest =>
              simp only [lockedPop, hget, afterPop, hrows, List.mem_singleton] at hu
              subst hu
              intro r hr
              exact hs.keyed key buf hget r (by rw [hrows]; exact hr)
  | write key first rest s suffixNs hfresh =>
      refine ⟨⟨hs.keyed, ?_⟩, ?_⟩
      · intro path rows hget r hr
        by_cases hpath : path = partFile key first suffixNs
        · subst hpath
          have hrows := Option.some.inj ((Dict.get?_set_self s.files _ _).symm.trans hget)
          subst hrows
          exact filedRight_partFile suffixNs ht r hr
        · exact hs.placed path rows ((Dict.get?_set_ne s.files _ hpath).symm.trans hget) r hr
      · intro u hu
        cases hu

/-! ## The last flush -/

section LastFlush

variable {ι : Type*} [DecidableEq ι] {cfg : WriterConfig}

/-- Thread `i` runs one `flush_all` to its end, and no other call begins. -/
structure LastFlush (cfg : WriterConfig) (i : ι) (p q : WriterPool ρ ι) : Prop where
  run : Relation.ReflTransGen (Pool.Work (Runs cfg)) (p.assign i p.shared [.snapshot]) q
  idle : q.Idle

/-- A task of a flush that has taken its snapshot. -/
def IsFlushTask : WriterTask ρ → Prop
  | .pop _ => True
  | .write _ _ _ => True
  | _ => False

/-- The tasks of a thread in the middle of a flush: every buffered key is still to be popped. -/
def FlushTasks (buffers : Buffers ρ) (ts : List (WriterTask ρ)) : Prop :=
  (∀ t ∈ ts, IsFlushTask t) ∧ ∀ key ∈ buffers.keys, .pop key ∈ ts

omit [Row ρ] in
lemma afterPop_cases (key : Key) (popped : Option (Buffer ρ)) :
    afterPop key popped = [] ∨ ∃ first rest, afterPop key popped = [.write key first rest] := by
  cases popped with
  | none => exact Or.inl rfl
  | some buf =>
      cases hrows : buf.rows with
      | nil => exact Or.inl (by simp only [afterPop, hrows])
      | cons first rest => exact Or.inr ⟨first, rest, by simp only [afterPop, hrows]⟩

omit [Row ρ] in
lemma isFlushTask_afterPop (key : Key) (popped : Option (Buffer ρ)) :
    ∀ t ∈ afterPop key popped, IsFlushTask t := by
  intro t ht
  rcases afterPop_cases key popped with hnone | ⟨first, rest, hsome⟩
  · rw [hnone] at ht
    cases ht
  · rw [hsome, List.mem_singleton] at ht
    rw [ht]
    trivial

/-- One task of a flush appends nothing and keeps draining. -/
lemma runs_flushTasks {t : WriterTask ρ} {s s' : WriterState ρ}
    {spawned rest : List (WriterTask ρ)} (h : Runs cfg t s s' spawned)
    (htasks : t :: rest = [.snapshot] ∨ FlushTasks s.buffers (t :: rest)) :
    s'.appended = s.appended ∧ FlushTasks s'.buffers (spawned ++ rest) := by
  cases h with
  | append table row s openedNs checkedNs =>
      rcases htasks with hsnapshot | hflush
      · cases hsnapshot
      · exact absurd (hflush.1 _ List.mem_cons_self) id
  | snapshot s =>
      rcases htasks with hsnapshot | hflush
      · have hrest : rest = [] := (List.cons.inj hsnapshot).2
        subst hrest
        rw [List.append_nil]
        refine ⟨rfl, ?_, ?_⟩
        · intro u hu
          rcases List.mem_map.1 hu with ⟨key, _, rfl⟩
          trivial
        · intro key hkey
          exact List.mem_map.2 ⟨key, hkey, rfl⟩
      · exact absurd (hflush.1 _ List.mem_cons_self) id
  | pop key s =>
      rcases htasks with hsnapshot | hflush
      · cases hsnapshot
      · refine ⟨rfl, ?_, ?_⟩
        · intro u hu
          rcases List.mem_append.1 hu with hnew | hold
          · exact isFlushTask_afterPop key _ u hnew
          · exact hflush.1 u (List.mem_cons_of_mem _ hold)
        · intro key' hkey'
          -- The popped key is gone; every other buffered key has its pop among the rest.
          have herase := Dict.mem_keys_erase.1 hkey'
          rcases List.mem_cons.1 (hflush.2 key' herase.2) with heq | hold
          · cases heq
            exact absurd rfl herase.1
          · exact List.mem_append_right _ hold
  | write key first rest' s suffixNs hfresh =>
      rcases htasks with hsnapshot | hflush
      · cases hsnapshot
      · refine ⟨rfl, ?_, ?_⟩
        · intro u hu
          exact hflush.1 u (List.mem_cons_of_mem _ hu)
        · intro key' hkey'
          rcases List.mem_cons.1 (hflush.2 key' hkey') with heq | hold
          · cases heq
          · exact hold

/-- A last flush appends nothing and leaves no buffer behind. -/
lemma LastFlush.drained {i : ι} {p q : WriterPool ρ ι} (hidle : p.Idle)
    (h : LastFlush cfg i p q) :
    q.shared.appended = p.shared.appended ∧ q.shared.buffers.keys = [] := by
  have hrun : Pool.Alone i q ∧ q.shared.appended = p.shared.appended ∧
      (q.tasks i = [.snapshot] ∨ FlushTasks q.shared.buffers (q.tasks i)) := by
    refine Relation.ReflTransGen.head_induction_on (motive := fun r _ =>
      Pool.Alone i r ∧ r.shared.appended = p.shared.appended ∧
        (r.tasks i = [.snapshot] ∨ FlushTasks r.shared.buffers (r.tasks i)) →
      Pool.Alone i q ∧ q.shared.appended = p.shared.appended ∧
        (q.tasks i = [.snapshot] ∨ FlushTasks q.shared.buffers (q.tasks i))) h.run ?_ ?_ ?_
    · intro hq
      exact hq
    · intro r r' hwork _ ih hr
      apply ih
      -- A step of the only working thread keeps draining.
      rcases Pool.work_alone hr.1 hwork with ⟨halone, t, rest, spawned, hnext, hruns, htasks⟩
      have hflush := hr.2.2
      rw [hnext] at hflush
      rcases runs_flushTasks hruns hflush with ⟨happended, hdrain⟩
      refine ⟨halone, happended.trans hr.2.1, Or.inr ?_⟩
      rw [htasks]
      exact hdrain
    · refine ⟨?_, rfl, Or.inl (by simp)⟩
      intro j hj
      rw [Pool.assign_tasks_of_ne p hj]
      exact hidle j
  refine ⟨hrun.2.1, ?_⟩
  have hnone : q.tasks i = [] := h.idle i
  rw [hnone] at hrun
  rcases hrun.2.2 with hsnapshot | hflush
  · cases hsnapshot
  · refine List.eq_nil_iff_forall_not_mem.2 ?_
    intro key hkey
    cases hflush.2 key hkey

omit [Row ρ] in
lemma exists_fresh_suffix (files : Store ρ) :
    ∃ suffixNs : Int, ∀ path ∈ files.keys, path.name.suffix ≠ suffixNs := by
  rcases Infinite.exists_notMem_finset (files.keys.map fun path => path.name.suffix).toFinset with
    ⟨suffixNs, hfresh⟩
  refine ⟨suffixNs, ?_⟩
  intro path hpath heq
  apply hfresh
  exact List.mem_toFinset.2 (List.mem_map.2 ⟨path, hpath, heq⟩)

/-- The pops and writes of a flush can always run to their end. -/
lemma exists_drained (cfg : WriterConfig) (i : ι) :
    ∀ (keys : List Key) (p : WriterPool ρ ι), Pool.Alone i p → p.tasks i = keys.map .pop →
      ∃ q, Relation.ReflTransGen (Pool.Work (Runs cfg)) p q ∧ q.Idle
  | [], p, halone, htasks => by
      refine ⟨p, Relation.ReflTransGen.refl, ?_⟩
      intro j
      by_cases hj : j = i
      · rw [hj, htasks]
        rfl
      · exact halone j hj
  | key :: keys, p, halone, htasks => by
      have hpop := Pool.Work.run p i (.pop key) (keys.map .pop) _ _ htasks
        (Runs.pop key p.shared : Runs cfg _ _ _ _)
      have halone₁ := (Pool.work_alone halone hpop).1
      rcases afterPop_cases key (lockedPop p.shared.buffers key).2 with hnone | ⟨first, rest, hsome⟩
      · rw [hnone, List.nil_append] at hpop halone₁
        rcases exists_drained cfg i keys _ halone₁ (Pool.assign_tasks_self p i _ _) with
          ⟨q, hrun, hidle⟩
        exact ⟨q, Relation.ReflTransGen.head hpop hrun, hidle⟩
      · -- A buffer was popped: its write comes next, under a new name.
        rw [hsome] at hpop halone₁
        rcases exists_fresh_suffix p.shared.files with ⟨suffixNs, hfresh⟩
        have hwrite := Pool.Work.run (p.assign i _ _) i (.write key first rest) (keys.map .pop) _ _
          (Pool.assign_tasks_self p i _ _) (Runs.write key first rest
            { p.shared with buffers := (lockedPop p.shared.buffers key).1 } suffixNs hfresh :
            Runs cfg _ _ _ _)
        have halone₂ := (Pool.work_alone halone₁ hwrite).1
        rcases exists_drained cfg i keys _ halone₂ (Pool.assign_tasks_self _ i _ _) with
          ⟨q, hrun, hidle⟩
        exact ⟨q, Relation.ReflTransGen.head hpop (Relation.ReflTransGen.head hwrite hrun), hidle⟩

/-! ## The whole writer -/

lemma appended_eq [Fintype ι] {p : WriterPool ρ ι}
    (h : Pool.Reachable (Runs cfg) IsCall WriterState.init p) :
    p.shared.appended = buffered p.shared.buffers + heldRows p + filed p.shared.files := by
  have hbalance := h.balance WriterState.appended
    (fun s => buffered s.buffers + filed s.files) taskRows rfl
    (fun ts hts => taskRows_call hts) (fun t s s' spawned hruns => runs_balance hruns)
  rw [hbalance, heldRows, add_right_comm]

lemma wellPlaced_of_reachable {p : WriterPool ρ ι}
    (h : Pool.Reachable (Runs cfg) IsCall WriterState.init p) : WellPlaced p.shared := by
  have hinit : WellPlaced (WriterState.init : WriterState ρ) := by
    refine ⟨?_, ?_⟩
    · intro key buf hget
      cases hget
    · intro path rows hget
      cases hget
  exact (h.invariant WellPlaced CarriesKeyed hinit (fun ts hts => carriesKeyed_call hts)
    (fun t s s' spawned hs ht hruns => runs_wellPlaced hs ht hruns)).1

lemma LastFlush.reachable {i : ι} {p q : WriterPool ρ ι}
    (h : Pool.Reachable (Runs cfg) IsCall WriterState.init p) (hidle : p.Idle)
    (hflush : LastFlush cfg i p q) : Pool.Reachable (Runs cfg) IsCall WriterState.init q := by
  have hbegin := Pool.Reachable.begin i [.snapshot] h (hidle i) IsCall.flushAll
  refine Relation.ReflTransGen.head_induction_on (motive := fun r _ =>
    Pool.Reachable (Runs cfg) IsCall WriterState.init r →
      Pool.Reachable (Runs cfg) IsCall WriterState.init q) hflush.run ?_ ?_ hbegin
  · intro hq
    exact hq
  · intro r r' hwork _ ih hr
    exact ih (hr.work hwork)

lemma exists_lastFlush (cfg : WriterConfig) (i : ι) {p : WriterPool ρ ι} (hidle : p.Idle) :
    ∃ q, LastFlush cfg i p q := by
  have hsnapshot := Pool.Work.run (p.assign i p.shared [.snapshot]) i .snapshot [] _ _
    (Pool.assign_tasks_self p i _ _) (Runs.snapshot p.shared : Runs cfg _ _ _ _)
  have halone : Pool.Alone i (p.assign i p.shared [WriterTask.snapshot]) := by
    intro j hj
    rw [Pool.assign_tasks_of_ne p hj]
    exact hidle j
  have halone' := (Pool.work_alone halone hsnapshot).1
  rw [List.append_nil] at hsnapshot halone'
  rcases exists_drained cfg i p.shared.buffers.keys _ halone' (Pool.assign_tasks_self _ i _ _) with
    ⟨q, hrun, hq⟩
  exact ⟨q, Relation.ReflTransGen.head hsnapshot hrun, hq⟩

/-- Exactly once and in the right place, for any number of threads and any interleaving. -/
theorem writer_exactly_once [Fintype ι] (cfg : WriterConfig) {p : WriterPool ρ ι}
    (h : Pool.Reachable (Runs cfg) IsCall WriterState.init p) :
    p.shared.appended = buffered p.shared.buffers + heldRows p + filed p.shared.files ∧
      (∀ path rows, p.shared.files.get? path = some rows → ∀ r ∈ rows,
        (path.partition.table, r) ∈ p.shared.appended ∧ FiledRight path r) ∧
      (p.Idle → ∀ i, (∃ q, LastFlush cfg i p q) ∧ ∀ q, LastFlush cfg i p q →
        q.shared.buffers.keys = [] ∧ filed q.shared.files = p.shared.appended) := by
  refine ⟨appended_eq h, ?_, ?_⟩
  · intro path rows hget r hr
    refine ⟨?_, (wellPlaced_of_reachable h).placed path rows hget r hr⟩
    rw [appended_eq h]
    exact Multiset.mem_add.2 (Or.inr (mem_filed hget hr))
  · intro hidle i
    refine ⟨exists_lastFlush cfg i hidle, ?_⟩
    intro q hflush
    rcases hflush.drained hidle with ⟨happended, hempty⟩
    -- The last state is reachable too, and there only the files hold rows.
    have hq := appended_eq (hflush.reachable h hidle)
    rw [buffered_of_keys_nil hempty, heldRows, Pool.held_of_idle taskRows hflush.idle, zero_add,
      zero_add] at hq
    exact ⟨hempty, hq.symm.trans happended⟩

def threadTrade (ns : Int) : Trade where
  tsNs := ns
  symbol := "BTC-USD"
  venue := some "kraken"
  price := 100

/-- Two threads and three trades, while a flush is in progress. -/
theorem writer_exactly_once_sample :
    ∃ p : WriterPool Trade (Fin 2),
      heldRows p = {("trades", threadTrade 0), ("trades", threadTrade 1)} ∧
      p.shared.appended = buffered p.shared.buffers + heldRows p + filed p.shared.files ∧
      buffered p.shared.buffers = {("trades", threadTrade 2)} := by
  let key : Key := ⟨"trades", "BTC-USD", "kraken", 0⟩
  have h₀ : Pool.Reachable (Runs {}) IsCall WriterState.init
      (⟨WriterState.init, fun _ => []⟩ : WriterPool Trade (Fin 2)) := Pool.Reachable.start
  -- Each thread appends a trade, the first one goes on to flush.
  have h₁ := h₀.begin 0 [.append "trades" (threadTrade 0)] rfl (.append _ _)
  have h₂ := h₁.begin 1 [.append "trades" (threadTrade 1)] rfl (.append _ _)
  have h₃ := h₂.work (.run _ 0 _ [] _ _ rfl (.append "trades" (threadTrade 0) _ 0 0))
  have h₄ := h₃.work (.run _ 1 _ [] _ _ rfl (.append "trades" (threadTrade 1) _ 0 0))
  have h₅ := h₄.begin 0 [.snapshot] rfl .flushAll
  have h₆ := h₅.work (.run _ 0 _ [] _ _ rfl (.snapshot _))
  have h₇ := h₆.work (.run _ 0 _ [] _ _ rfl (.pop key _))
  -- Before its file is written, the second thread appends another one.
  have h₈ := h₇.begin 1 [.append "trades" (threadTrade 2)] rfl (.append _ _)
  have h₉ := h₈.work (.run _ 1 _ [] _ _ rfl (.append "trades" (threadTrade 2) _ 0 0))
  exact ⟨_, by decide +kernel, (writer_exactly_once {} h₉).1, by decide +kernel⟩

end LastFlush

end CryptoData
