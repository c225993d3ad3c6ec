import Mathlib.Data.List.Basic
import Mathlib.Data.String.Basic

/-!
# NameOrder — numbers written as text

Names with a number in them: decimal numerals of one length are ordered as text like the numbers
(`toString_lt_toString`), and no two numbers have one numeral (`toString_injective`).
-/

namespace Foundation

variable {α : Type*}

/-! ## Numerals -/

/-- Lists of one length compare before anything that follows them. -/
lemma append_lt_append [LinearOrder α] :
    ∀ {xs ys : List α}, xs.length = ys.length → xs < ys → ∀ us vs : List α, xs ++ us < ys ++ vs
  | [], [], _, h, _, _ => absurd h (lt_irrefl _)
  | x :: xs, y :: ys, hlen, h, us, vs => by
      have hlen' : xs.length = ys.length := Nat.succ.inj hlen
      rw [List.cons_append, List.cons_append, List.cons_lt_cons_iff]
      rcases List.cons_lt_cons_iff.1 h with hlt | ⟨heq, hlt⟩
      · exact Or.inl hlt
      · exact Or.inr ⟨heq, append_lt_append hlen' hlt us vs⟩

lemma append_left_lt [LinearOrder α] (xs : List α) {us vs : List α} (h : us < vs) :
    xs ++ us < xs ++ vs := by
  induction xs with
  | nil => exact h
  | cons x xs ih =>
      rw [List.cons_append, List.cons_append, List.cons_lt_cons_iff]
      exact Or.inr ⟨rfl, ih⟩

lemma digitChar_lt {d e : ℕ} (h : d < e) (he : e < 10) :
    Nat.digitChar d < Nat.digitChar e := by
  have hall : ∀ e < 10, ∀ d < e, Nat.digitChar d < Nat.digitChar e := by decide
  exact hall e he d h

/-- Numerals of one length are ordered like their numbers. -/
theorem toDigits_lt_toDigits :
    ∀ {m n : ℕ}, m < n → (Nat.toDigits 10 m).length = (Nat.toDigits 10 n).length →
      Nat.toDigits 10 m < Nat.toDigits 10 n := by
  intro m n
  induction n using Nat.strong_induction_on generalizing m with
  | _ n ih =>
      intro hlt hlen
      by_cases hn : n < 10
      · rw [Nat.toDigits_of_lt_base hn, Nat.toDigits_of_lt_base (lt_trans hlt hn),
          List.cons_lt_cons_iff]
        exact Or.inl (digitChar_lt hlt hn)
      · have hbase : 10 ≤ n := not_lt.1 hn
        rw [Nat.toDigits_of_base_le (by decide) hbase] at hlen ⊢
        by_cases hm : m < 10
        · -- A single digit is shorter than a numeral with two parts.
          have hpos := Nat.length_toDigits_pos (b := 10) (n := n / 10)
          rw [Nat.toDigits_of_lt_base hm, List.length_append] at hlen
          simp only [List.length_singleton] at hlen
          omega
        · have hbase' : 10 ≤ m := not_lt.1 hm
          rw [Nat.toDigits_of_base_le (by decide) hbase'] at hlen ⊢
          have hlen' : (Nat.toDigits 10 (m / 10)).length = (Nat.toDigits 10 (n / 10)).length := by
            simpa using hlen
          by_cases hdiv : m / 10 < n / 10
          · exact append_lt_append hlen' (ih (n / 10) (by omega) hdiv hlen') _ _
          · have heq : m / 10 = n / 10 := by omega
            rw [heq]
            refine append_left_lt _ ?_
            rw [List.cons_lt_cons_iff]
            exact Or.inl (digitChar_lt (by omega) (Nat.mod_lt n (by decide)))

theorem toString_lt_toString {m n : Int} (hm : 0 ≤ m) (hlt : m < n)
    (hlen : (toString m).length = (toString n).length) :
    (toString m).toList < (toString n).toList := by
  lift m to ℕ using hm
  lift n to ℕ using (by omega)
  have hm' : (toString (m : Int)).toList = Nat.toDigits 10 m := Nat.toList_repr
  have hn' : (toString (n : Int)).toList = Nat.toDigits 10 n := Nat.toList_repr
  rw [← String.length_toList, ← String.length_toList, hm', hn'] at hlen
  rw [hm', hn']
  exact toDigits_lt_toDigits (by omega) hlen

/-! ## Reading a numeral back -/

theorem toDigits_injective {m n : ℕ} (h : Nat.toDigits 10 m = Nat.toDigits 10 n) : m = n := by
  calc
    m = Nat.ofDigitChars 10 (Nat.toDigits 10 m) 0 :=
        (Nat.ofDigitChars_toDigits (by decide) (by decide)).symm
    _ = Nat.ofDigitChars 10 (Nat.toDigits 10 n) 0 := by rw [h]
    _ = n := Nat.ofDigitChars_toDigits (by decide) (by decide)

lemma toList_toString_ofNat (n : ℕ) : (toString (Int.ofNat n)).toList = Nat.toDigits 10 n :=
  Nat.toList_repr

lemma toList_toString_negSucc (n : ℕ) :
    (toString (Int.negSucc n)).toList = '-' :: Nat.toDigits 10 (n + 1) := by
  have h : toString (Int.negSucc n) = "-" ++ Nat.repr (n + 1) := rfl
  rw [h, String.toList_append, Nat.toList_repr]
  rfl

lemma toDigits_ne_minus_cons (n : ℕ) (cs : List Char) : Nat.toDigits 10 n ≠ '-' :: cs := by
  intro h
  have hmem : '-' ∈ Nat.toDigits 10 n := h ▸ List.mem_cons_self
  have hdigit := Nat.isDigit_of_mem_toDigits (by decide) (by decide) hmem
  revert hdigit
  decide

/-- A numeral starts with a digit or a minus sign. -/
lemma toString_eq_cons (n : Int) :
    ∃ c cs, (toString n).toList = c :: cs ∧ (c = '-' ∨ c.isDigit = true) := by
  cases n with
  | ofNat n =>
      rw [toList_toString_ofNat]
      rcases List.exists_cons_of_length_pos (Nat.length_toDigits_pos (b := 10) (n := n)) with
        ⟨c, cs, hcs⟩
      have hdigit := Nat.isDigit_of_mem_toDigits (c := c) (by decide) (by decide)
        (hcs ▸ List.mem_cons_self)
      exact ⟨c, cs, hcs, Or.inr hdigit⟩
  | negSucc n => exact ⟨'-', _, toList_toString_negSucc n, Or.inl rfl⟩

theorem toString_injective : Function.Injective fun n : Int => toString n := by
  intro m n h
  have hlist : (toString m).toList = (toString n).toList := congrArg String.toList h
  cases m with
  | ofNat m =>
      cases n with
      | ofNat n =>
          rw [toList_toString_ofNat, toList_toString_ofNat] at hlist
          rw [toDigits_injective hlist]
      | negSucc n =>
          rw [toList_toString_ofNat, toList_toString_negSucc] at hlist
          exact absurd hlist (toDigits_ne_minus_cons m _)
  | negSucc m =>
      cases n with
      | ofNat n =>
          rw [toList_toString_ofNat, toList_toString_negSucc] at hlist
          exact absurd hlist.symm (toDigits_ne_minus_cons n _)
      | negSucc n =>
          rw [toList_toString_negSucc, toList_toString_negSucc] at hlist
          have heq := toDigits_injective (List.cons.inj hlist).2
          rw [Nat.succ.inj heq]

end Foundation
