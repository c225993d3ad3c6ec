import CryptoData.Storage.Writer
import Mathlib.Data.Multiset.OrderedMonoid

/-!
# FlushFailure — one caller, and writes that may raise

`_flush_key` pops the buffer before it looks up the schema, converts the columns, makes the
directory and writes the file.  When any of these raises, the popped rows are in no buffer and in
no file, and the exception reaches the caller of `append` or `flush_all`.

So the writer keeps every accepted row exactly as long as no write raises (`no_row_lost_iff`).  A
`flush_all` that raises stops at the failing key; the buffers behind it stay as they are.
-/

namespace CryptoData

open Foundation

variable {ρ : Type*} [Row ρ]

/-! ## Runs with failures -/

/-- Where `_flush_key` raises once the buffer is popped. -/
inductive FlushFailure
  | schema
  | conversion
  | mkdir
  | write
  deriving DecidableEq, Repr

/-- What the `n`-th flush of a non-empty buffer meets: its failure, if any, and the clock reading
of its part name. -/
structure WriteEnv where
  failure : ℕ → Option FlushFailure
  suffixNs : ℕ → Int
  suffix_injective : Function.Injective suffixNs

/-- The writer, its files, and the number of flushes attempted so far. -/
structure WriterRun (ρ : Type*) where
  buffers : Buffers ρ
  files : Store ρ
  attempts : ℕ

def WriterRun.init : WriterRun ρ :=
  ⟨Dict.empty, Dict.empty, 0⟩

/-- A call, with the clock readings that the locked section of `append` takes. -/
inductive WriterCall (ρ : Type*)
  | append (table : String) (row : ρ) (openedNs checkedNs : Int)
  | flushAll

/-- `_flush_key(key)`, and the exception it raises. -/
def flushKey (env : WriteEnv) (s : WriterRun ρ) (key : Key) : WriterRun ρ × Option FlushFailure :=
  let popped := lockedPop s.buffers key
  match popped.2.elim [] Buffer.rows with
  | [] => ({ s with buffers := popped.1 }, none)
  | first :: rest =>
      match env.failure s.attempts with
      -- The exception leaves the popped buffer nowhere.
      | some failure => ({ s with buffers := popped.1, attempts := s.attempts + 1 }, some failure)
      | none =>
          ({ buffers := popped.1
             files := s.files.write (partFile key first (env.suffixNs s.attempts)) (first :: rest)
             attempts := s.attempts + 1 }, none)

/-- `for key in keys: self._flush_key(key)`. -/
def flushKeys (env : WriteEnv) : List Key → WriterRun ρ → WriterRun ρ × Option FlushFailure
  | [], s => (s, none)
  | key :: keys, s =>
      match flushKey env s key with
      -- The exception leaves the loop; the remaining keys are not visited.
      | (s', some failure) => (s', some failure)
      | (s', none) => flushKeys env keys s'

/-- `flush_all()`. -/
def flushAll (env : WriteEnv) (s : WriterRun ρ) : WriterRun ρ × Option FlushFailure :=
  flushKeys env s.buffers.keys s

/-- `append(table, row)`. -/
def appendRow (env : WriteEnv) (cfg : WriterConfig) (s : WriterRun ρ) (table : String) (row : ρ)
    (openedNs checkedNs : Int) : WriterRun ρ × Option FlushFailure :=
  let out := lockedAppend cfg s.buffers table row openedNs checkedNs
  let s' := { s with buffers := out.1 }
  if out.2 then flushKey env s' (keyOf table row) else (s', none)

def runCall (env : WriteEnv) (cfg : WriterConfig) (s : WriterRun ρ) :
    WriterCall ρ → WriterRun ρ × Option FlushFailure
  | .append table row openedNs checkedNs => appendRow env cfg s table row openedNs checkedNs
  | .flushAll => flushAll env s

/-- The state after the calls; a caller whose call raised goes on with its next call. -/
def runCalls (env : WriteEnv) (cfg : WriterConfig) (calls : List (WriterCall ρ)) : WriterRun ρ :=
  calls.foldl (fun s call => (runCall env cfg s call).1) WriterRun.init

/-- The row that a call puts into a buffer. -/
def acceptedBy : WriterCall ρ → Multiset (String × ρ)
  | .append table row _ _ => {(table, row)}
  | .flushAll => 0

/-- The rows put into buffers by a sequence of calls. -/
def accepted (calls : List (WriterCall ρ)) : Multiset (String × ρ) :=
  (calls.map acceptedBy).sum

/-- The rows that a later flush can write, or that are written. -/
def WriterRun.safe (s : WriterRun ρ) : Multiset (String × ρ) :=
  buffered s.buffers + filed s.files

/-! ## The ledger -/

/-- No flush from the `n`-th up to the `m`-th fails. -/
def NoFailure (env : WriteEnv) (n m : ℕ) : Prop :=
  ∀ k, n ≤ k → k < m → env.failure k = none

lemma noFailure_trans_iff {env : WriteEnv} {n m l : ℕ} (hnm : n ≤ m) (hml : m ≤ l) :
    NoFailure env n l ↔ NoFailure env n m ∧ NoFailure env m l := by
  constructor
  · intro h
    refine ⟨?_, ?_⟩
    · intro k hnk hkm
      exact h k hnk (lt_of_lt_of_le hkm hml)
    · intro k hmk hkl
      exact h k (le_trans hnm hmk) hkl
  · intro h k hnk hkl
    rcases lt_or_ge k m with hlt | hge
    · exact h.1 k hnk hlt
    · exact h.2 k hge hkl

/-- Every part name carries the reading of an earlier attempt. -/
def NamesUsed (env : WriteEnv) (s : WriterRun ρ) : Prop :=
  ∀ path ∈ s.files.keys, ∃ k, k < s.attempts ∧ path.name.suffix = env.suffixNs k

/-- What a stretch of a run does: `added` comes in, and what is lost is nothing exactly when no
flush of the stretch fails. -/
structure Ledger (env : WriteEnv) (s s' : WriterRun ρ) (added : Multiset (String × ρ)) : Prop where
  names : NamesUsed env s'
  attempts : s.attempts ≤ s'.attempts
  balance : ∃ lost, s.safe + added = s'.safe + lost ∧
    (lost = 0 ↔ NoFailure env s.attempts s'.attempts)

section Ledger

variable {env : WriteEnv} {cfg : WriterConfig}

omit [Row ρ]

/-- A stretch without a flush that loses nothing. -/
lemma Ledger.of_quiet {s s' : WriterRun ρ} {added : Multiset (String × ρ)} (h : NamesUsed env s)
    (hfiles : s'.files = s.files) (hattempts : s'.attempts = s.attempts)
    (hsafe : s.safe + added = s'.safe) : Ledger env s s' added where
  names := by
    unfold NamesUsed
    rw [hfiles, hattempts]
    exact h
  attempts := hattempts.ge
  balance := by
    refine ⟨0, by rw [hsafe, add_zero], iff_of_true rfl ?_⟩
    intro k hle hlt
    rw [hattempts] at hlt
    exact absurd hlt (not_lt.2 hle)

/-- Stretches compose. -/
lemma Ledger.trans {s s' s'' : WriterRun ρ} {added added' : Multiset (String × ρ)}
    (h : Ledger env s s' added) (h' : Ledger env s' s'' added') :
    Ledger env s s'' (added + added') where
  names := h'.names
  attempts := le_trans h.attempts h'.attempts
  balance := by
    rcases h.balance with ⟨lost, hsafe, hlost⟩
    rcases h'.balance with ⟨lost', hsafe', hlost'⟩
    refine ⟨lost + lost', ?_, ?_⟩
    · calc
        s.safe + (added + added') = (s.safe + added) + added' := (add_assoc _ _ _).symm
        _ = (s'.safe + added') + lost := by rw [hsafe, add_right_comm]
        _ = s''.safe + (lost + lost') := by rw [hsafe', add_assoc, add_comm lost' lost]
    · rw [noFailure_trans_iff h.attempts h'.attempts, ← hlost, ← hlost', add_eq_zero]

end Ledger

section Run

variable {env : WriteEnv} {cfg : WriterConfig}

/-- The rows that `_flush_key(key)` takes out of the buffers. -/
def poppedRows (s : WriterRun ρ) (key : Key) : List ρ :=
  (lockedPop s.buffers key).2.elim [] Buffer.rows

omit [Row ρ] in
lemma buffered_poppedRows (s : WriterRun ρ) (key : Key) :
    buffered s.buffers =
      tagged key.table (poppedRows s key) + buffered (lockedPop s.buffers key).1 := by
  rw [buffered_lockedPop s.buffers key, poppedRows]
  cases (lockedPop s.buffers key).2 with
  | none => rfl
  | some buf => rfl

lemma flushKey_of_nil {s : WriterRun ρ} {key : Key} (hrows : poppedRows s key = []) :
    flushKey env s key = ({ s with buffers := (lockedPop s.buffers key).1 }, none) := by
  unfold poppedRows at hrows
  simp only [flushKey, hrows]

lemma flushKey_of_failure {s : WriterRun ρ} {key : Key} {first : ρ} {rest : List ρ}
    {failure : FlushFailure} (hrows : poppedRows s key = first :: rest)
    (hfailure : env.failure s.attempts = some failure) :
    flushKey env s key =
      ({ s with buffers := (lockedPop s.buffers key).1, attempts := s.attempts + 1 },
        some failure) := by
  unfold poppedRows at hrows
  simp only [flushKey, hrows, hfailure]

lemma flushKey_of_write {s : WriterRun ρ} {key : Key} {first : ρ} {rest : List ρ}
    (hrows : poppedRows s key = first :: rest) (hfailure : env.failure s.attempts = none) :
    flushKey env s key =
      ({ buffers := (lockedPop s.buffers key).1
         files := s.files.write (partFile key first (env.suffixNs s.attempts)) (first :: rest)
         attempts := s.attempts + 1 }, none) := by
  unfold poppedRows at hrows
  simp only [flushKey, hrows, hfailure]

/-- The next part name is not in use. -/
lemma NamesUsed.fresh {s : WriterRun ρ} (h : NamesUsed env s) (key : Key) (first : ρ) :
    partFile key first (env.suffixNs s.attempts) ∉ s.files.keys := by
  intro hmem
  rcases h _ hmem with ⟨k, hk, heq⟩
  have hsame : s.attempts = k := env.suffix_injective heq
  exact absurd hk (by rw [hsame]; exact lt_irrefl k)

lemma noFailure_succ_iff {n : ℕ} : NoFailure env n (n + 1) ↔ env.failure n = none := by
  constructor
  · intro h
    exact h n (le_refl n) (Nat.lt_succ_self n)
  · intro h k hle hlt
    rw [le_antisymm (Nat.le_of_lt_succ hlt) hle]
    exact h

/-- One key: the books of its flush. -/
lemma flushKey_ledger {s : WriterRun ρ} (h : NamesUsed env s) (key : Key) :
    Ledger env s (flushKey env s key).1 0 := by
  have hpop := buffered_poppedRows s key
  cases hrows : poppedRows s key with
  | nil =>
      rw [flushKey_of_nil hrows]
      refine Ledger.of_quiet h rfl rfl ?_
      rw [WriterRun.safe, hpop, hrows, add_zero, tagged, List.map_nil, Multiset.coe_nil, zero_add]
      rfl
  | cons first rest =>
      have hle : s.attempts ≤ s.attempts + 1 := Nat.le_succ _
      cases hfailure : env.failure s.attempts with
      | some failure =>
          -- The popped rows are in no buffer and in no file any more.
          rw [flushKey_of_failure hrows hfailure]
          refine ⟨?_, hle, tagged key.table (first :: rest), ?_, ?_⟩
          · intro path hpath
            rcases h path hpath with ⟨k, hk, heq⟩
            exact ⟨k, lt_of_lt_of_le hk hle, heq⟩
          · rw [WriterRun.safe, hpop, hrows, add_zero, WriterRun.safe, add_assoc, add_comm]
          · rw [noFailure_succ_iff, hfailure]
            exact iff_of_false (by simp [tagged]) (by simp)
      | none =>
          rw [flushKey_of_write hrows hfailure]
          refine ⟨?_, hle, 0, ?_, iff_of_true rfl (noFailure_succ_iff.2 hfailure)⟩
          · intro path hpath
            rcases Dict.mem_keys_set.1 hpath with rfl | hold
            · exact ⟨s.attempts, Nat.lt_succ_self _, rfl⟩
            · rcases h path hold with ⟨k, hk, heq⟩
              exact ⟨k, lt_of_lt_of_le hk hle, heq⟩
          · have hwrite := filed_write (h.fresh key first) (first :: rest)
            simp only [WriterRun.safe, hpop, hrows, hwrite, add_zero]
            rw [add_comm (tagged key.table (first :: rest)), add_assoc]
            rfl

/-- The loop of `flush_all`, which ends at the first failure. -/
lemma flushKeys_ledger :
    ∀ (keys : List Key) {s : WriterRun ρ}, NamesUsed env s →
      Ledger env s (flushKeys env keys s).1 0
  | [], s, h => Ledger.of_quiet h rfl rfl (add_zero _)
  | key :: keys, s, h => by
      have hfirst := flushKey_ledger h key
      cases hkey : flushKey env s key with
      | mk s' failure =>
          rw [hkey] at hfirst
          cases failure with
          | some failure => simpa only [flushKeys, hkey] using hfirst
          | none =>
              have hrest := hfirst.trans (flushKeys_ledger keys hfirst.names)
              rw [add_zero] at hrest
              simpa only [flushKeys, hkey] using hrest

/-- One call of either method. -/
lemma runCall_ledger (cfg : WriterConfig) {s : WriterRun ρ} (h : NamesUsed env s)
    (call : WriterCall ρ) : Ledger env s (runCall env cfg s call).1 (acceptedBy call) := by
  cases call with
  | flushAll => exact flushKeys_ledger s.buffers.keys h
  | append table row openedNs checkedNs =>
      let out := lockedAppend cfg s.buffers table row openedNs checkedNs
      have hlocked : Ledger env s { s with buffers := out.1 } {(table, row)} := by
        refine Ledger.of_quiet h rfl rfl ?_
        rw [WriterRun.safe, WriterRun.safe, buffered_lockedAppend, add_right_comm]
      cases hflush : out.2 with
      | false =>
          have hrun : appendRow env cfg s table row openedNs checkedNs =
              ({ s with buffers := out.1 }, none) := by
            simp only [appendRow]
            rw [if_neg (by rw [hflush]; decide)]
          rw [runCall, hrun]
          exact hlocked
      | true =>
          have hrun : appendRow env cfg s table row openedNs checkedNs =
              flushKey env { s with buffers := out.1 } (keyOf table row) := by
            simp only [appendRow]
            rw [if_pos hflush]
          have hboth := hlocked.trans (flushKey_ledger hlocked.names (keyOf table row))
          rw [add_zero] at hboth
          rw [runCall, hrun]
          exact hboth

/-- A whole run, from any state. -/
lemma foldl_ledger (cfg : WriterConfig) :
    ∀ (calls : List (WriterCall ρ)) {s : WriterRun ρ}, NamesUsed env s →
      Ledger env s (calls.foldl (fun s call => (runCall env cfg s call).1) s) (accepted calls)
  | [], s, h => Ledger.of_quiet h rfl rfl (add_zero _)
  | call :: calls, s, h => by
      have hcall := runCall_ledger cfg h call
      exact hcall.trans (foldl_ledger cfg calls hcall.names)

lemma runCalls_ledger (env : WriteEnv) (cfg : WriterConfig) (calls : List (WriterCall ρ)) :
    Ledger env WriterRun.init (runCalls env cfg calls) (accepted calls) := by
  apply foldl_ledger
  intro path hpath
  cases hpath

/-- Longer runs attempt more flushes. -/
lemma attempts_mono (env : WriteEnv) (cfg : WriterConfig)
    {done calls : List (WriterCall ρ)} (h : done <+: calls) :
    (runCalls env cfg done).attempts ≤ (runCalls env cfg calls).attempts := by
  -- The longer run goes on from the state of the shorter one.
  rcases h with ⟨more, rfl⟩
  have hmore := (foldl_ledger cfg more (runCalls_ledger env cfg done).names).attempts
  rw [runCalls, runCalls, List.foldl_append]
  exact hmore

/-- After a run every accepted row is in a buffer or in a file exactly when no flush failed. -/
lemma accepted_le_safe_iff (env : WriteEnv) (cfg : WriterConfig) (calls : List (WriterCall ρ)) :
    accepted calls ≤ (runCalls env cfg calls).safe ↔
      NoFailure env 0 (runCalls env cfg calls).attempts := by
  rcases (runCalls_ledger env cfg calls).balance with ⟨lost, hsafe, hlost⟩
  have hbalance : accepted calls = (runCalls env cfg calls).safe + lost := by
    rw [← hsafe]
    exact (zero_add _).symm
  have hzero : accepted calls ≤ (runCalls env cfg calls).safe ↔ lost = 0 := by
    rw [hbalance]
    constructor
    · intro hle
      -- What is lost is counted on the left and nowhere on the right.
      have hnone : (runCalls env cfg calls).safe + lost ≤ (runCalls env cfg calls).safe + 0 := by
        rw [add_zero]
        exact hle
      exact Multiset.le_zero.1 (le_of_add_le_add_left hnone)
    · intro hnone
      rw [hnone, add_zero]
  exact hzero.trans hlost

/-! ## The other keys of a failing flush -/

/-- A buffer is still there, or a file holds its rows. -/
def Spared (s : WriterRun ρ) (key : Key) (buf : Buffer ρ) : Prop :=
  s.buffers.get? key = some buf ∨ ∃ path, s.files.get? path = some buf.rows

/-- What the flush of `key` leaves alone. -/
structure Leaves (s s' : WriterRun ρ) (key : Key) : Prop where
  files : ∀ path rows, s.files.get? path = some rows → s'.files.get? path = some rows
  buffers : ∀ key', key' ≠ key → s'.buffers.get? key' = s.buffers.get? key'

lemma flushKey_leaves {s : WriterRun ρ} (h : NamesUsed env s) (key : Key) :
    Leaves s (flushKey env s key).1 key := by
  have hothers : ∀ key', key' ≠ key →
      (lockedPop s.buffers key).1.get? key' = s.buffers.get? key' :=
    fun key' hne => Dict.get?_erase_ne s.buffers hne
  cases hrows : poppedRows s key with
  | nil =>
      rw [flushKey_of_nil hrows]
      exact ⟨fun _ _ hget => hget, hothers⟩
  | cons first rest =>
      cases hfailure : env.failure s.attempts with
      | some failure =>
          rw [flushKey_of_failure hrows hfailure]
          exact ⟨fun _ _ hget => hget, hothers⟩
      | none =>
          rw [flushKey_of_write hrows hfailure]
          refine ⟨?_, hothers⟩
          intro path rows hget
          have hne : path ≠ partFile key first (env.suffixNs s.attempts) := by
            intro heq
            apply h.fresh key first
            rw [← heq]
            exact Dict.mem_keys_iff.2 ⟨rows, hget⟩
          exact (Dict.get?_set_ne s.files _ hne).trans hget

/-- A flush that does not raise files the rows of its key. -/
lemma flushKey_files {s : WriterRun ρ} {key : Key} {buf : Buffer ρ}
    (hget : s.buffers.get? key = some buf) (hne : buf.rows ≠ [])
    (hdone : (flushKey env s key).2 = none) :
    ∃ path, (flushKey env s key).1.files.get? path = some buf.rows := by
  have hpopped : poppedRows s key = buf.rows := by
    simp [poppedRows, lockedPop, hget]
  cases hrows : buf.rows with
  | nil => exact absurd hrows hne
  | cons first rest =>
      rw [hrows] at hpopped
      cases hfailure : env.failure s.attempts with
      | some failure =>
          rw [flushKey_of_failure hpopped hfailure] at hdone
          cases hdone
      | none =>
          rw [flushKey_of_write hpopped hfailure]
          exact ⟨_, Dict.get?_set_self s.files _ _⟩

/-- The loop of `flush_all` loses at most the buffer of the key at which it raises. -/
lemma flushKeys_spares :
    ∀ (keys : List Key) {s : WriterRun ρ}, NamesUsed env s →
      ∃ failed : Option Key, (failed = none ↔ (flushKeys env keys s).2 = none) ∧
        (∀ path rows, s.files.get? path = some rows →
          (flushKeys env keys s).1.files.get? path = some rows) ∧
        ∀ key buf, s.buffers.get? key = some buf → buf.rows ≠ [] →
          failed = some key ∨ Spared (flushKeys env keys s).1 key buf
  | [], s, _ =>
      ⟨none, iff_of_true rfl rfl, fun _ _ hget => hget, fun _ _ hget _ => Or.inr (Or.inl hget)⟩
  | key :: keys, s, h => by
      have hleaves := flushKey_leaves h key
      have hnames := (flushKey_ledger h key).names
      cases hdone : (flushKey env s key).2 with
      | some failure =>
          have hrun : flushKeys env (key :: keys) s = flushKey env s key := by
            simp only [flushKeys]
            rw [← Prod.eta (flushKey env s key), hdone]
          rw [hrun, hdone]
          refine ⟨some key, by simp, hleaves.files, ?_⟩
          intro key' buf hget _
          by_cases hkey : key' = key
          · exact Or.inl (by rw [hkey])
          · exact Or.inr (Or.inl ((hleaves.buffers key' hkey).trans hget))
      | none =>
          have hrun : flushKeys env (key :: keys) s =
              flushKeys env keys (flushKey env s key).1 := by
            simp only [flushKeys]
            rw [← Prod.eta (flushKey env s key), hdone]
          rcases flushKeys_spares keys hnames with ⟨failed, hfailed, hfiles, hspared⟩
          rw [hrun]
          refine ⟨failed, hfailed, ?_, ?_⟩
          · intro path rows hget
            exact hfiles path rows (hleaves.files path rows hget)
          · intro key' buf hget hne
            by_cases hkey : key' = key
            · subst hkey
              rcases flushKey_files hget hne hdone with ⟨path, hpath⟩
              exact Or.inr (Or.inr ⟨path, hfiles path buf.rows hpath⟩)
            · exact hspared key' buf ((hleaves.buffers key' hkey).trans hget) hne

end Run

/-- A run loses no accepted row, after any of its calls, exactly when no attempted flush fails; a
`flush_all` at any point loses at most the buffer at which it raises. -/
theorem no_row_lost_iff (env : WriteEnv) (cfg : WriterConfig) (calls : List (WriterCall ρ)) :
    ((∀ done, done <+: calls → accepted done ≤ (runCalls env cfg done).safe) ↔
        ∀ n, n < (runCalls env cfg calls).attempts → env.failure n = none) ∧
      ∀ done, done <+: calls → ∃ failed : Option Key,
        (failed = none ↔ (flushAll env (runCalls env cfg done)).2 = none) ∧
        ∀ key buf, (runCalls env cfg done).buffers.get? key = some buf → buf.rows ≠ [] →
          failed = some key ∨ Spared (flushAll env (runCalls env cfg done)).1 key buf := by
  refine ⟨⟨?_, ?_⟩, ?_⟩
  · intro hsafe n hn
    have hcalls := (accepted_le_safe_iff env cfg calls).1 (hsafe calls (List.prefix_refl calls))
    exact hcalls n (Nat.zero_le n) hn
  · intro hnone done hdone
    apply (accepted_le_safe_iff env cfg done).2
    intro n _ hn
    exact hnone n (lt_of_lt_of_le hn (attempts_mono env cfg hdone))
  · intro done _
    rcases flushKeys_spares (runCalls env cfg done).buffers.keys
      (runCalls_ledger env cfg done).names with ⟨failed, hfailed, _, hspared⟩
    exact ⟨failed, hfailed, hspared⟩

/-- Two trades of one hour, and a `flush_all` whose conversion raises: both are gone. -/
theorem failed_flush_loses_batch :
    let env : WriteEnv := ⟨fun _ => some .conversion, fun n => n, Nat.cast_injective⟩
    let trade (n : Int) : Trade :=
      { tsNs := n, symbol := "BTC-USD", venue := some "kraken", price := 100 }
    let calls : List (WriterCall Trade) :=
      [.append "trades" (trade 0) 0 0, .append "trades" (trade 1) 0 0, .flushAll]
    accepted calls = {("trades", trade 0), ("trades", trade 1)} ∧
      (runCalls env {} calls).safe = 0 := by
  decide +kernel

end CryptoData
