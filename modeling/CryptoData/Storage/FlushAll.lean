import CryptoData.Storage.FlushFailure

/-!
# FlushAll — what a `flush_all` leaves behind

A `flush_all` raises exactly if one of its flushes fails (`flushKeys_raises_iff`), only adds files
(`filed_le_flushAll`), and leaves nothing in the buffers unless it raises (`flushAll_drains`).
-/

namespace CryptoData

open Foundation

/-- Every flush succeeds. -/
def quietDisk : WriteEnv :=
  ⟨fun _ => none, fun n => n, Nat.cast_injective⟩

variable {ρ : Type*} [Row ρ] {env : WriteEnv}

lemma flushKey_buffers (env : WriteEnv) (s : WriterRun ρ) (key : Key) :
    (flushKey env s key).1.buffers = (lockedPop s.buffers key).1 := by
  cases hrows : poppedRows s key with
  | nil => rw [flushKey_of_nil hrows]
  | cons first rest =>
      cases hfailure : env.failure s.attempts with
      | some failure => rw [flushKey_of_failure hrows hfailure]
      | none => rw [flushKey_of_write hrows hfailure]

lemma flushKey_raises_iff (env : WriteEnv) (s : WriterRun ρ) (key : Key) :
    (flushKey env s key).2 = none ↔ NoFailure env s.attempts (flushKey env s key).1.attempts := by
  cases hrows : poppedRows s key with
  | nil =>
      rw [flushKey_of_nil hrows]
      exact iff_of_true rfl fun k hle hlt => absurd hlt (not_lt.2 hle)
  | cons first rest =>
      cases hfailure : env.failure s.attempts with
      | some failure =>
          rw [flushKey_of_failure hrows hfailure, noFailure_succ_iff, hfailure]
      | none =>
          rw [flushKey_of_write hrows hfailure, noFailure_succ_iff, hfailure]

/-- Files stay as they are, new ones come. -/
lemma filed_le_flushKey {s : WriterRun ρ} (h : NamesUsed env s) (key : Key) :
    filed s.files ≤ filed (flushKey env s key).1.files := by
  cases hrows : poppedRows s key with
  | nil => rw [flushKey_of_nil hrows]
  | cons first rest =>
      cases hfailure : env.failure s.attempts with
      | some failure => rw [flushKey_of_failure hrows hfailure]
      | none =>
          rw [flushKey_of_write hrows hfailure]
          rw [filed_write (h.fresh key first)]
          exact Multiset.le_add_left _ _

/-- `flush_all` raises exactly if a flush of it fails. -/
lemma flushKeys_raises_iff :
    ∀ (keys : List Key) {s : WriterRun ρ}, NamesUsed env s →
      ((flushKeys env keys s).2 = none ↔
        NoFailure env s.attempts (flushKeys env keys s).1.attempts)
  | [], s, _ => iff_of_true rfl fun k hle hlt => absurd hlt (not_lt.2 hle)
  | key :: keys, s, h => by
      have hfirst := flushKey_raises_iff env s key
      have hledger := flushKey_ledger h key
      cases hkey : flushKey env s key with
      | mk s' failure =>
          rw [hkey] at hfirst hledger
          cases failure with
          | some failure => simpa only [flushKeys, hkey] using hfirst
          | none =>
              have hrest := flushKeys_ledger keys hledger.names
              simp only [flushKeys, hkey]
              rw [flushKeys_raises_iff keys hledger.names,
                noFailure_trans_iff hledger.attempts hrest.attempts]
              exact (and_iff_right (hfirst.1 rfl)).symm

/-- What a `flush_all` that does not raise leaves in the buffers. -/
lemma keys_flushKeys :
    ∀ (keys : List Key) (s : WriterRun ρ), (flushKeys env keys s).2 = none →
      ∀ key ∈ (flushKeys env keys s).1.buffers.keys, key ∈ s.buffers.keys ∧ key ∉ keys
  | [], _, _, key, hkey => ⟨hkey, List.not_mem_nil⟩
  | k :: keys, s, hnone, key, hkey => by
      have hbuffers := flushKey_buffers env s k
      cases hfirst : flushKey env s k with
      | mk s' failure =>
          rw [hfirst] at hbuffers
          cases failure with
          | some failure =>
              simp only [flushKeys, hfirst] at hnone
              cases hnone
          | none =>
              simp only [flushKeys, hfirst] at hnone hkey
              rcases keys_flushKeys keys s' hnone key hkey with ⟨hin, hnot⟩
              rw [hbuffers] at hin
              rcases Dict.mem_keys_erase.1 hin with ⟨hne, hold⟩
              refine ⟨hold, ?_⟩
              intro hmem
              rcases List.mem_cons.1 hmem with heq | hmem
              · exact hne heq
              · exact hnot hmem

lemma flushAll_drains {s : WriterRun ρ} (hnone : (flushAll env s).2 = none) :
    (flushAll env s).1.buffers.keys = [] := by
  refine List.eq_nil_iff_forall_not_mem.2 ?_
  intro key hkey
  have hboth := keys_flushKeys s.buffers.keys s hnone key hkey
  exact hboth.2 hboth.1

lemma filed_le_flushKeys :
    ∀ (keys : List Key) {s : WriterRun ρ}, NamesUsed env s →
      filed s.files ≤ filed (flushKeys env keys s).1.files
  | [], _, _ => le_rfl
  | key :: keys, s, h => by
      have hfirst := filed_le_flushKey h key
      have hnames := (flushKey_ledger h key).names
      cases hkey : flushKey env s key with
      | mk s' failure =>
          rw [hkey] at hfirst hnames
          cases failure with
          | some failure => simpa only [flushKeys, hkey] using hfirst
          | none =>
              simp only [flushKeys, hkey]
              exact hfirst.trans (filed_le_flushKeys keys hnames)

lemma filed_le_flushAll {w : WriterRun ρ} (h : NamesUsed env w) :
    filed w.files ≤ filed (flushAll env w).1.files :=
  filed_le_flushKeys w.buffers.keys h

lemma flushAll_ledger {w : WriterRun ρ} (h : NamesUsed env w) :
    Ledger env w (flushAll env w).1 0 :=
  flushKeys_ledger w.buffers.keys h

lemma noFailure_of_le {n m : ℕ} (hle : n ≤ m) (h : NoFailure env 0 m) : NoFailure env 0 n :=
  fun k hk hlt => h k hk (lt_of_lt_of_le hlt hle)

/-- A flush that no failure meets does not raise. -/
lemma flushAll_of_noFailure {w : WriterRun ρ} (hnames : NamesUsed env w) {m : ℕ}
    (hle : (flushAll env w).1.attempts ≤ m) (hok : NoFailure env 0 m) :
    (flushAll env w).2 = none := by
  refine (flushKeys_raises_iff w.buffers.keys hnames).2 ?_
  intro k _ hlt
  exact hok k (Nat.zero_le k) (lt_of_lt_of_le hlt hle)

end CryptoData
