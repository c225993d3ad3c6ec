import CryptoData.Core.Summary
import CryptoData.Sources.Gemini
import CryptoData.Sources.Okx

/-!
# ExecutionOrder — backfilled trades and the order of execution

Ids increase in execution order and times do not decrease in it, so a list in execution order opens
and closes every second at the right trades (`ExecutionOrder.of_increasing`).  OKX and Gemini answer
newest first, and both adapters end with a stable sort by time, which leaves trades of one
millisecond newest first.  So what they return is in execution order exactly if no two trades of the
window that they have read share a millisecond (`backfill_in_execution_order_iff`).
-/

namespace CryptoData

open Foundation

/-! ## Execution order -/

section Order

variable {α : Type*} {toTrade : α → Trade} {id : α → Int} {symbol venue : String} {rows : List α}

/-- Rows in the order of their ids, and bars that open and close at the first and the last of
them. -/
structure ExecutionOrder (toTrade : α → Trade) (id : α → Int) (symbol venue : String)
    (rows : List α) : Prop where
  increasing : rows.Pairwise fun x y => id x < id y
  opens : ∀ nowNs, ∀ b ∈ barsFromTrades symbol venue nowNs (rows.map toTrade),
    ∃ r ∈ rows, (toTrade r).second = b.tsNs ∧ b.open = (toTrade r).price ∧
      ∀ u ∈ rows, (toTrade u).second = b.tsNs → id r ≤ id u
  closes : ∀ nowNs, ∀ b ∈ barsFromTrades symbol venue nowNs (rows.map toTrade),
    ∃ r ∈ rows, (toTrade r).second = b.tsNs ∧ b.close = (toTrade r).price ∧
      ∀ u ∈ rows, (toTrade u).second = b.tsNs → id u ≤ id r

lemma head?_le {r : α} (hids : rows.Pairwise fun x y => id x < id y) (hr : r ∈ rows.head?) :
    ∀ u ∈ rows, id r ≤ id u := by
  intro u hu
  rw [← List.cons_head?_tail hr] at hids hu
  rcases List.mem_cons.1 hu with rfl | hlater
  · exact le_refl _
  · exact ((List.pairwise_cons.1 hids).1 u hlater).le

lemma le_getLast? {r : α} (hids : rows.Pairwise fun x y => id x < id y)
    (hr : r ∈ rows.getLast?) : ∀ u ∈ rows, id u ≤ id r := by
  intro u hu
  rw [← List.dropLast_append_getLast? r hr] at hids hu
  rcases List.mem_append.1 hu with hearlier | hlast
  · exact ((List.pairwise_append.1 hids).2.2 u hearlier r (List.mem_singleton_self r)).le
  · rw [List.mem_singleton.1 hlast]

/-- Sorted rows with increasing ids are in execution order. -/
theorem ExecutionOrder.of_increasing
    (hsorted : rows.Pairwise fun x y => (toTrade x).tsNs ≤ (toTrade y).tsNs)
    (hids : rows.Pairwise fun x y => id x < id y) :
    ExecutionOrder toTrade id symbol venue rows where
  increasing := hids
  opens := by
    intro nowNs b hb
    have hsummary := summarises_of_mem_barsFromTrades symbol venue nowNs (rows.map toTrade)
      (List.pairwise_map.2 hsorted) b hb
    rw [List.filter_map] at hsummary
    rcases hsummary.open with ⟨t, ht, hopen⟩
    rw [List.head?_map] at ht
    rcases Option.mem_map.1 ht with ⟨r, hr, rfl⟩
    have hmem := List.mem_filter.1 (List.mem_of_mem_head? hr)
    refine ⟨r, hmem.1, of_decide_eq_true hmem.2, hopen, ?_⟩
    intro u hu hsecond
    exact head?_le (hids.sublist List.filter_sublist) hr u
      (List.mem_filter.2 ⟨hu, decide_eq_true hsecond⟩)
  closes := by
    intro nowNs b hb
    have hsummary := summarises_of_mem_barsFromTrades symbol venue nowNs (rows.map toTrade)
      (List.pairwise_map.2 hsorted) b hb
    rw [List.filter_map] at hsummary
    rcases hsummary.close with ⟨t, ht, hclose⟩
    rw [List.getLast?_map] at ht
    rcases Option.mem_map.1 ht with ⟨r, hr, rfl⟩
    have hmem := List.mem_filter.1 (List.mem_of_mem_getLast? hr)
    refine ⟨r, hmem.1, of_decide_eq_true hmem.2, hclose, ?_⟩
    intro u hu hsecond
    exact le_getLast? (hids.sublist List.filter_sublist) hr u
      (List.mem_filter.2 ⟨hu, decide_eq_true hsecond⟩)

/-- In a newest-first history an earlier time means a lower id. -/
lemma id_lt_of_time_lt {time : α → Int} :
    ∀ {history : List α}, (history.Pairwise fun x y => id y < id x) →
      (history.Pairwise fun x y => time y ≤ time x) →
        ∀ x ∈ history, ∀ y ∈ history, time x < time y → id x < id y
  | [], _, _, x, hx, _, _, _ => absurd hx List.not_mem_nil
  | newest :: rest, hids, htimes, x, hx, y, hy, hlt => by
      have hidsCons := List.pairwise_cons.1 hids
      have htimesCons := List.pairwise_cons.1 htimes
      rcases List.mem_cons.1 hy with rfl | hyRest
      · rcases List.mem_cons.1 hx with rfl | hxRest
        · exact absurd hlt (lt_irrefl _)
        · exact hidsCons.1 x hxRest
      · rcases List.mem_cons.1 hx with rfl | hxRest
        · exact absurd hlt (not_lt.2 (htimesCons.1 y hyRest))
        · exact id_lt_of_time_lt hidsCons.2 htimesCons.2 x hxRest y hyRest hlt

/-- Rows that are collected with the newer one of a tie first, and then sorted by time. -/
theorem ExecutionOrder.sort_iff
    (hmono : ∀ x ∈ rows, ∀ y ∈ rows, (toTrade x).tsNs < (toTrade y).tsNs → id x < id y)
    (hties : rows.Pairwise fun x y => (toTrade x).tsNs = (toTrade y).tsNs → id y < id x) :
    ExecutionOrder toTrade id symbol venue
        (rows.insertionSort fun x y => (toTrade x).tsNs ≤ (toTrade y).tsNs) ↔
      rows.Pairwise fun x y => (toTrade x).tsNs ≠ (toTrade y).tsNs := by
  rw [← insertionSort_increasing_iff (fun x => (toTrade x).tsNs) hmono hties]
  constructor
  · exact fun h => h.increasing
  · exact fun hup => ExecutionOrder.of_increasing
      (insertionSort_key_sorted (fun x => (toTrade x).tsNs) rows) hup

end Order

/-! ## OKX -/

namespace OKXSpot

variable {history : List TradeRow} {size : ℕ → ℕ} {startNs endNs : Int}

/-- The trades of the window that the pages reach. -/
def reached (history : List TradeRow) (size : ℕ → ℕ) (startNs endNs : Int) : List TradeRow :=
  (history.take (capacity size pageCap 0)).filter (inRange startNs endNs)

lemma fetchTrades_eq_sort (hids : history.Pairwise fun x y => y.tradeId < x.tradeId)
    (htimes : history.Pairwise fun x y => y.ts ≤ x.ts) (hsize : ∀ k, 0 < size k) :
    fetchTrades history size startNs endNs =
      (reached history size startNs endNs).insertionSort fun a b => a.tsNs ≤ b.tsNs := by
  unfold fetchTrades
  rw [fetchPages_eq hids htimes hsize]
  rfl

lemma executionOrder_iff (symbol : String)
    (hids : history.Pairwise fun x y => y.tradeId < x.tradeId)
    (htimes : history.Pairwise fun x y => y.ts ≤ x.ts) (hsize : ∀ k, 0 < size k) :
    ExecutionOrder (TradeRow.toTrade symbol) TradeRow.tradeId symbol "okx"
        (fetchTrades history size startNs endNs) ↔
      (reached history size startNs endNs).Pairwise fun x y => x.tsNs ≠ y.tsNs := by
  have hsub : (reached history size startNs endNs).Sublist history :=
    List.filter_sublist.trans (List.take_sublist _ _)
  have htimesNs : history.Pairwise fun x y => y.tsNs ≤ x.tsNs := by
    refine htimes.imp ?_
    intro x y hle
    unfold TradeRow.tsNs msToNs
    omega
  have hmono : ∀ x ∈ reached history size startNs endNs, ∀ y ∈ reached history size startNs endNs,
      x.tsNs < y.tsNs → x.tradeId < y.tradeId := fun x hx y hy =>
    id_lt_of_time_lt hids htimesNs x (hsub.subset hx) y (hsub.subset hy)
  have hties : (reached history size startNs endNs).Pairwise fun x y =>
      x.tsNs = y.tsNs → y.tradeId < x.tradeId := by
    refine (hids.sublist hsub).imp ?_
    intro x y hlt _
    exact hlt
  rw [fetchTrades_eq_sort hids htimes hsize]
  exact ExecutionOrder.sort_iff hmono hties

end OKXSpot

/-! ## Gemini -/

namespace GeminiSpot

/-- A venue that answers newest first, with trades from the given millisecond on. -/
def AnswersFrom (history : List TradeRow) (answer : Int → List TradeRow) : Prop :=
  ∀ sinceMs, (answer sinceMs).Sublist
    (history.filter fun r => decide (sinceMs ≤ r.timestampms))

/-- No answer on the way holds two trades of the window in one millisecond: the first is the answer
at `sinceMs`, and the next the one behind the newest trade of an answer. -/
def TieFree (answer : Int → List TradeRow) (startNs endNs : Int) : ℕ → Int → Prop
  | 0, _ => True
  | rounds + 1, sinceMs =>
      ((answer sinceMs).filter (inRange startNs endNs)).Pairwise
          (fun x y => x.timestampms ≠ y.timestampms) ∧
        ∀ newest ∈ (answer sinceMs).head?,
          TieFree answer startNs endNs rounds (newest.timestampms + 1)

section Run

variable {history : List TradeRow} {answer : Int → List TradeRow} {startNs endNs : Int}

/-- The last row of a sorted page has the time of the newest row of the answer. -/
lemma getLast?_sortPage {rows : List TradeRow}
    (htimes : rows.Pairwise fun x y => y.timestampms ≤ x.timestampms) :
    (sortPage rows).getLast?.map TradeRow.timestampms = rows.head?.map TradeRow.timestampms := by
  have hperm : (sortPage rows).Perm rows := List.perm_insertionSort _ rows
  cases rows with
  | nil => rfl
  | cons newest rest =>
      have hne : sortPage (newest :: rest) ≠ [] := by
        intro hnil
        rw [hnil] at hperm
        exact List.cons_ne_nil newest rest hperm.nil_eq.symm
      rw [List.getLast?_eq_some_getLast hne]
      have hlast := hperm.mem_iff.1 (List.getLast_mem hne)
      have hle : ((sortPage (newest :: rest)).getLast hne).timestampms ≤ newest.timestampms := by
        rcases List.mem_cons.1 hlast with heq | hrest
        · rw [heq]
        · exact (List.pairwise_cons.1 htimes).1 _ hrest
      have hge : newest.timestampms ≤ ((sortPage (newest :: rest)).getLast hne).timestampms :=
        (sortPage_sorted (newest :: rest)).rel_getLast_of_rel_getLast_getLast
          (hperm.mem_iff.2 List.mem_cons_self) (le_refl _)
      exact congrArg some (le_antisymm hle hge)

lemma answer_sublist (hanswer : AnswersFrom history answer) (sinceMs : Int) :
    (answer sinceMs).Sublist history :=
  (hanswer sinceMs).trans List.filter_sublist

/-- One round, by the last row of its sorted page. -/
lemma fetchPages_step (rounds : ℕ) {sinceMs : Int} {last : TradeRow}
    (hlast : (sortPage (answer sinceMs)).getLast? = some last) :
    fetchPages answer startNs endNs (rounds + 1) sinceMs =
      if (scanRows startNs endNs (sortPage (answer sinceMs))).2 = true ∨
          last.timestampms + 1 ≤ sinceMs then
        (scanRows startNs endNs (sortPage (answer sinceMs))).1
      else (scanRows startNs endNs (sortPage (answer sinceMs))).1 ++
        fetchPages answer startNs endNs rounds (last.timestampms + 1) := by
  simp only [fetchPages, hlast]

lemma fetchPages_empty (rounds : ℕ) {sinceMs : Int}
    (hlast : (sortPage (answer sinceMs)).getLast? = none) :
    fetchPages answer startNs endNs (rounds + 1) sinceMs = [] := by
  simp only [fetchPages, hlast]

/-- What is collected is in the window, and not before the first millisecond asked for. -/
lemma mem_fetchPages (hanswer : AnswersFrom history answer) :
    ∀ (rounds : ℕ) (sinceMs : Int) {r : TradeRow},
      r ∈ fetchPages answer startNs endNs rounds sinceMs →
        r ∈ history ∧ sinceMs ≤ r.timestampms ∧ inRange startNs endNs r = true := by
  intro rounds
  induction rounds with
  | zero =>
      intro sinceMs r hr
      cases hr
  | succ rounds ih =>
      intro sinceMs r hr
      have hsorted := sortPage_sorted (answer sinceMs)
      have hpage : ∀ u ∈ sortPage (answer sinceMs), u ∈ history ∧ sinceMs ≤ u.timestampms := by
        intro u hu
        have hmem := (hanswer sinceMs).subset ((List.perm_insertionSort _ _).mem_iff.1 hu)
        exact ⟨(List.mem_filter.1 hmem).1, of_decide_eq_true (List.mem_filter.1 hmem).2⟩
      have hout : ∀ u ∈ (scanRows startNs endNs (sortPage (answer sinceMs))).1,
          u ∈ history ∧ sinceMs ≤ u.timestampms ∧ inRange startNs endNs u = true := by
        intro u hu
        rw [scanRows_out hsorted] at hu
        have hmem := List.mem_filter.1 hu
        exact ⟨(hpage u hmem.1).1, (hpage u hmem.1).2, hmem.2⟩
      cases hlast : (sortPage (answer sinceMs)).getLast? with
      | none =>
          rw [fetchPages_empty rounds hlast] at hr
          cases hr
      | some last =>
          rw [fetchPages_step rounds hlast] at hr
          by_cases hdone : (scanRows startNs endNs (sortPage (answer sinceMs))).2 = true ∨
              last.timestampms + 1 ≤ sinceMs
          · rw [if_pos hdone] at hr
            exact hout r hr
          · rw [if_neg hdone] at hr
            rcases List.mem_append.1 hr with hr | hr
            · exact hout r hr
            · rcases ih _ hr with ⟨hin, hle, hrange⟩
              have hlastMs := (hpage last (List.mem_of_mem_getLast? hlast)).2
              exact ⟨hin, by omega, hrange⟩

/-- A round adds the window's part of its page; that the adapter may return there loses nothing. -/
lemma fetchPages_succ (htimes : history.Pairwise fun x y => y.timestampms ≤ x.timestampms)
    (hanswer : AnswersFrom history answer) (rounds : ℕ) {sinceMs : Int} {newest : TradeRow}
    (hnewest : (answer sinceMs).head? = some newest) :
    fetchPages answer startNs endNs (rounds + 1) sinceMs =
      (sortPage (answer sinceMs)).filter (inRange startNs endNs) ++
        fetchPages answer startNs endNs rounds (newest.timestampms + 1) := by
  have hsorted := sortPage_sorted (answer sinceMs)
  have hperm : (sortPage (answer sinceMs)).Perm (answer sinceMs) := List.perm_insertionSort _ _
  have hmap := getLast?_sortPage (htimes.sublist (answer_sublist hanswer sinceMs))
  rw [hnewest, Option.map_some] at hmap
  rcases Option.map_eq_some_iff.1 hmap with ⟨last, hlast, hms⟩
  have hlastMem := List.mem_of_mem_getLast? hlast
  have hsince : ¬ last.timestampms + 1 ≤ sinceMs := by
    have hmem := (List.mem_filter.1 ((hanswer sinceMs).subset (hperm.mem_iff.1 hlastMem))).2
    have hle := of_decide_eq_true hmem
    omega
  rw [fetchPages_step rounds hlast, scanRows_out hsorted, ← hms]
  cases hdone : (scanRows startNs endNs (sortPage (answer sinceMs))).2 with
  | false => simp [hsince]
  | true =>
      -- Everything behind the page is later than the row at which the adapter returned.
      have hnone : fetchPages answer startNs endNs rounds (last.timestampms + 1) = [] := by
        refine List.eq_nil_iff_forall_not_mem.2 ?_
        intro r hr
        rcases mem_fetchPages hanswer rounds _ hr with ⟨_, hle, hrange⟩
        rcases exists_of_scanRows_done hdone with ⟨u, hu, hbeyond⟩
        have hlast' : (sortPage (answer sinceMs)).getLast (List.ne_nil_of_mem hu) = last :=
          Option.some.inj ((List.getLast?_eq_some_getLast _).symm.trans hlast)
        have hule := hsorted.rel_getLast_of_rel_getLast_getLast hu (le_refl _)
        rw [hlast'] at hule
        simp only [inRange, Bool.and_eq_true, decide_eq_true_eq] at hrange
        simp only [TradeRow.tsNs, msToNs] at hrange hbeyond
        omega
      rw [hnone, if_pos (Or.inl rfl), List.append_nil]

/-- On a page the newer one of a millisecond comes first, as in the answer. -/
lemma page_ties (hids : history.Pairwise fun x y => y.tid < x.tid)
    (hanswer : AnswersFrom history answer) (sinceMs : Int) :
    ((sortPage (answer sinceMs)).filter (inRange startNs endNs)).Pairwise
      fun x y => x.timestampms = y.timestampms → y.tid < x.tid := by
  refine (insertionSort_ties TradeRow.timestampms ?_).sublist List.filter_sublist
  refine (hids.sublist (answer_sublist hanswer sinceMs)).imp ?_
  intro x y hlt _
  exact hlt

/-- A later page has later milliseconds. -/
lemma page_apart (htimes : history.Pairwise fun x y => y.timestampms ≤ x.timestampms)
    (hanswer : AnswersFrom history answer) (rounds : ℕ) {sinceMs : Int} {newest x y : TradeRow}
    (hnewest : (answer sinceMs).head? = some newest) (hx : x ∈ sortPage (answer sinceMs))
    (hy : y ∈ fetchPages answer startNs endNs rounds (newest.timestampms + 1)) :
    x.timestampms ≠ y.timestampms := by
  have hxmem : x ∈ answer sinceMs := (List.perm_insertionSort _ _).mem_iff.1 hx
  have hle : x.timestampms ≤ newest.timestampms := by
    have hrows := htimes.sublist (answer_sublist hanswer sinceMs)
    rw [← List.cons_head?_tail hnewest] at hxmem hrows
    rcases List.mem_cons.1 hxmem with rfl | hx
    · exact le_refl _
    · exact (List.pairwise_cons.1 hrows).1 x hx
  have hge := (mem_fetchPages hanswer rounds _ hy).2.1
  omega

/-- Among the collected trades the newer one of a millisecond comes first. -/
lemma fetchPages_ties (hids : history.Pairwise fun x y => y.tid < x.tid)
    (htimes : history.Pairwise fun x y => y.timestampms ≤ x.timestampms)
    (hanswer : AnswersFrom history answer) :
    ∀ (rounds : ℕ) (sinceMs : Int),
      (fetchPages answer startNs endNs rounds sinceMs).Pairwise
          (fun x y => x.timestampms = y.timestampms → y.tid < x.tid) ∧
        ((fetchPages answer startNs endNs rounds sinceMs).Pairwise
            (fun x y => x.timestampms ≠ y.timestampms) ↔
          TieFree answer startNs endNs rounds sinceMs) := by
  intro rounds
  induction rounds with
  | zero =>
      intro sinceMs
      exact ⟨List.Pairwise.nil, iff_of_true List.Pairwise.nil trivial⟩
  | succ rounds ih =>
      intro sinceMs
      have hmap := getLast?_sortPage (htimes.sublist (answer_sublist hanswer sinceMs))
      cases hnewest : (answer sinceMs).head? with
      | none =>
          rw [hnewest, Option.map_none, Option.map_eq_none_iff] at hmap
          rw [fetchPages_empty rounds hmap]
          have hnil : answer sinceMs = [] := List.head?_eq_none_iff.1 hnewest
          refine ⟨List.Pairwise.nil, iff_of_true List.Pairwise.nil ?_⟩
          simp [TieFree, hnil]
      | some newest =>
          rw [fetchPages_succ htimes hanswer rounds hnewest]
          have hlater : ∀ x ∈ (sortPage (answer sinceMs)).filter (inRange startNs endNs),
              ∀ y ∈ fetchPages answer startNs endNs rounds (newest.timestampms + 1),
                x.timestampms ≠ y.timestampms := fun x hx y hy =>
            page_apart htimes hanswer rounds hnewest (List.mem_filter.1 hx).1 hy
          have hperm : (sortPage (answer sinceMs)).Perm (answer sinceMs) :=
            List.perm_insertionSort _ _
          have hne : ((sortPage (answer sinceMs)).filter (inRange startNs endNs)).Pairwise
              (fun x y => x.timestampms ≠ y.timestampms) ↔
                ((answer sinceMs).filter (inRange startNs endNs)).Pairwise
                  fun x y => x.timestampms ≠ y.timestampms :=
            (hperm.filter _).pairwise_iff fun h => h.symm
          refine ⟨List.pairwise_append.2 ⟨page_ties hids hanswer sinceMs, (ih _).1, ?_⟩, ?_⟩
          · exact fun x hx y hy heq => absurd heq (hlater x hx y hy)
          · rw [List.pairwise_append, hne, (ih _).2]
            constructor
            · rintro ⟨hfirst, hrest, _⟩
              refine ⟨hfirst, ?_⟩
              intro u hu
              rw [← Option.some.inj (hnewest.symm.trans hu)]
              exact hrest
            · rintro ⟨hfirst, hrest⟩
              exact ⟨hfirst, hrest newest hnewest, hlater⟩

lemma executionOrder_iff (symbol : String) (hids : history.Pairwise fun x y => y.tid < x.tid)
    (htimes : history.Pairwise fun x y => y.timestampms ≤ x.timestampms)
    (hanswer : AnswersFrom history answer) :
    ExecutionOrder (TradeRow.toTrade symbol) TradeRow.tid symbol "gemini"
        (fetchTrades answer startNs endNs) ↔
      TieFree answer startNs endNs pageCap (startNs / 1000000) := by
  let rows := fetchPages answer startNs endNs pageCap (startNs / 1000000)
  have hns : ∀ x y : TradeRow, x.tsNs = y.tsNs ↔ x.timestampms = y.timestampms := by
    intro x y
    unfold TradeRow.tsNs msToNs
    omega
  rcases fetchPages_ties hids htimes hanswer pageCap (startNs / 1000000) with ⟨hrun, hfree⟩
  have hmono : ∀ x ∈ rows, ∀ y ∈ rows, x.tsNs < y.tsNs → x.tid < y.tid := by
    intro x hx y hy hlt
    refine id_lt_of_time_lt hids htimes x (mem_fetchPages hanswer _ _ hx).1 y
      (mem_fetchPages hanswer _ _ hy).1 ?_
    unfold TradeRow.tsNs msToNs at hlt
    omega
  have hties : rows.Pairwise fun x y => x.tsNs = y.tsNs → y.tid < x.tid := by
    refine hrun.imp ?_
    intro x y htie heq
    exact htie ((hns x y).1 heq)
  have hdistinct : (rows.Pairwise fun x y => x.tsNs ≠ y.tsNs) ↔
      rows.Pairwise fun x y => x.timestampms ≠ y.timestampms := by
    constructor
    · exact fun h => h.imp fun hne heq => hne ((hns _ _).2 heq)
    · exact fun h => h.imp fun hne heq => hne ((hns _ _).1 heq)
  calc
    ExecutionOrder (TradeRow.toTrade symbol) TradeRow.tid symbol "gemini"
        (fetchTrades answer startNs endNs) ↔ rows.Pairwise fun x y => x.tsNs ≠ y.tsNs :=
      ExecutionOrder.sort_iff hmono hties
    _ ↔ rows.Pairwise fun x y => x.timestampms ≠ y.timestampms := hdistinct
    _ ↔ TieFree answer startNs endNs pageCap (startNs / 1000000) := hfree

end Run

end GeminiSpot

/-! ## Both adapters -/

/-- The backfills of OKX and Gemini are in execution order exactly if the trades of the window that
they read have distinct milliseconds. -/
theorem backfill_in_execution_order_iff (symbol : String) (startNs endNs : Int)
    (okx : List OKXSpot.TradeRow) (size : ℕ → ℕ) (gemini : List GeminiSpot.TradeRow)
    (answer : Int → List GeminiSpot.TradeRow)
    (hokxIds : okx.Pairwise fun x y => y.tradeId < x.tradeId)
    (hokxTimes : okx.Pairwise fun x y => y.ts ≤ x.ts) (hsize : ∀ k, 0 < size k)
    (hgeminiIds : gemini.Pairwise fun x y => y.tid < x.tid)
    (hgeminiTimes : gemini.Pairwise fun x y => y.timestampms ≤ x.timestampms)
    (hanswer : GeminiSpot.AnswersFrom gemini answer) :
    (ExecutionOrder (OKXSpot.TradeRow.toTrade symbol) OKXSpot.TradeRow.tradeId symbol "okx"
        (OKXSpot.fetchTrades okx size startNs endNs) ↔
      (OKXSpot.reached okx size startNs endNs).Pairwise fun x y => x.tsNs ≠ y.tsNs) ∧
    (ExecutionOrder (GeminiSpot.TradeRow.toTrade symbol) GeminiSpot.TradeRow.tid symbol "gemini"
        (GeminiSpot.fetchTrades answer startNs endNs) ↔
      GeminiSpot.TieFree answer startNs endNs GeminiSpot.pageCap (startNs / 1000000)) :=
  ⟨OKXSpot.executionOrder_iff symbol hokxIds hokxTimes hsize,
    GeminiSpot.executionOrder_iff symbol hgeminiIds hgeminiTimes hanswer⟩

theorem backfill_in_execution_order_iff_two_trades :
    let okx : List OKXSpot.TradeRow :=
      [{ tradeId := 2, ts := 8, px := 101, sz := 1, side := "buy" },
        { tradeId := 1, ts := 7, px := 100, sz := 1, side := "sell" }]
    let gemini : List GeminiSpot.TradeRow :=
      [{ tid := 2, timestampms := 8, price := 101, amount := 1, type := "buy" },
        { tid := 1, timestampms := 7, price := 100, amount := 1, type := "sell" }]
    let answer : Int → List GeminiSpot.TradeRow := fun sinceMs =>
      (gemini.filter fun r => decide (sinceMs ≤ r.timestampms)).take 500
    (ExecutionOrder (OKXSpot.TradeRow.toTrade "BTC-USD") OKXSpot.TradeRow.tradeId "BTC-USD" "okx"
        (OKXSpot.fetchTrades okx (fun _ => 100) 0 9000000) ↔
      (OKXSpot.reached okx (fun _ => 100) 0 9000000).Pairwise fun x y => x.tsNs ≠ y.tsNs) ∧
    (ExecutionOrder (GeminiSpot.TradeRow.toTrade "BTC-USD") GeminiSpot.TradeRow.tid "BTC-USD"
        "gemini" (GeminiSpot.fetchTrades answer 0 9000000) ↔
      GeminiSpot.TieFree answer 0 9000000 GeminiSpot.pageCap 0) :=
  backfill_in_execution_order_iff "BTC-USD" 0 9000000 _ (fun _ => 100) _ _ (by decide) (by decide)
    (fun _ => by decide) (by decide) (by decide) (fun _ => List.take_sublist _ _)

/-- Two trades of one millisecond, the first at 100 and the second at 101: both adapters return the
second one first, and the bar of the second opens at 101 and closes at 100. -/
theorem burst_is_reversed :
    let okx : List OKXSpot.TradeRow :=
      [{ tradeId := 2, ts := 7, px := 101, sz := 1, side := "buy" },
        { tradeId := 1, ts := 7, px := 100, sz := 1, side := "sell" }]
    let gemini : List GeminiSpot.TradeRow :=
      [{ tid := 2, timestampms := 7, price := 101, amount := 1, type := "buy" },
        { tid := 1, timestampms := 7, price := 100, amount := 1, type := "sell" }]
    let answer : Int → List GeminiSpot.TradeRow := fun sinceMs =>
      (gemini.filter fun r => decide (sinceMs ≤ r.timestampms)).take 500
    let fetchedOkx := OKXSpot.fetchTrades okx (fun _ => 100) 0 9000000
    let fetchedGemini := GeminiSpot.fetchTrades answer 0 9000000
    ¬ ExecutionOrder (OKXSpot.TradeRow.toTrade "BTC-USD") OKXSpot.TradeRow.tradeId "BTC-USD" "okx"
        fetchedOkx ∧
      ¬ ExecutionOrder (GeminiSpot.TradeRow.toTrade "BTC-USD") GeminiSpot.TradeRow.tid "BTC-USD"
        "gemini" fetchedGemini ∧
      (barsFromTrades "BTC-USD" "okx" 0
          (fetchedOkx.map (OKXSpot.TradeRow.toTrade "BTC-USD"))).map (fun b => (b.open, b.close)) =
        [(101, 100)] := by
  intro okx gemini answer fetchedOkx fetchedGemini
  refine ⟨?_, ?_, by decide +kernel⟩
  · intro h
    exact absurd h.increasing (by decide +kernel)
  · intro h
    exact absurd h.increasing (by decide +kernel)

end CryptoData
