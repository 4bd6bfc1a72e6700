/-
**Numbers and truth values are read back.**

A value without quotes is a word, and the line break behind it ends the word.  The decimal digits of
a number are no mark of another base, carry no sign and have no superfluous zero in front; so they
are read as the number that was written, if that fits 64 bits with sign.

Main results:

* `HashCalendar.Toml.integer?_chars` — the digits of a number are read as the number;
* `HashCalendar.Toml.scalar?_chars`, `HashCalendar.Toml.scalar?_boolean` — **words are read back**.
-/

import HashCalendar.Proofs.Json.Scan
import HashCalendar.Toml.Scalar

set_option relaxedAutoImplicit false
set_option autoImplicit false

namespace HashCalendar

/-! ### Digits as characters -/

namespace Decimal

theorem chars_ne_nil (n : Nat) : chars n ≠ [] := by
  rw [chars, ne_eq, List.map_eq_nil_iff]
  exact digits_ne_nil n

/-- A character that shows no digit does not stand among digits. -/
theorem not_mem_map_char {ds : List Nat} (h : ∀ d ∈ ds, d < 10) {c : Char}
    (hc : ofChar? c = none) : c ∉ ds.map char := by
  intro hmem
  obtain ⟨d, hd, rfl⟩ := List.mem_map.1 hmem
  rw [ofChar?_char (h d hd)] at hc
  cases hc

theorem not_mem_chars (n : Nat) {c : Char} (hc : ofChar? c = none) : c ∉ chars n :=
  not_mem_map_char (fun _ => lt_ten_of_mem_digits) hc

end Decimal

namespace Toml

theorem digitBelow?_char : ∀ d < 10, digitBelow? 10 (Decimal.char d) = some d := by decide

theorem isWordChar_char : ∀ d < 10, isWordChar (Decimal.char d) = true := by decide

theorem isWordChar_of_mem_chars {n : Nat} {c : Char} (h : c ∈ Decimal.chars n) :
    isWordChar c = true := by
  obtain ⟨d, hd, rfl⟩ := List.mem_map.1 h
  exact isWordChar_char d (Decimal.lt_ten_of_mem_digits hd)

/-- Digits are read up to their end. -/
theorem spanDigits_map_char {ds : List Nat} (h : ∀ d ∈ ds, d < 10) :
    spanDigits 10 (ds.map Decimal.char) = (ds, []) := by
  induction ds with
  | nil => rfl
  | cons d ds ih =>
      rw [List.forall_mem_cons] at h
      have hunderscore : '_' ∉ ds.map Decimal.char := Decimal.not_mem_map_char h.2 rfl
      rw [List.map_cons, spanDigits, digitBelow?_char d h.1, ih h.2]
      intro c more he
      exact hunderscore (he ▸ List.mem_cons_self)

/-! ### Whole numbers -/

/-- The digits of a number have no superfluous zero in front. -/
theorem decimal?_chars (n : Nat) : decimal? (Decimal.chars n) = some (Decimal.digits n, []) := by
  have hspan : spanDigits 10 ((Decimal.digits n).map Decimal.char) = (Decimal.digits n, []) :=
    spanDigits_map_char fun _ => Decimal.lt_ten_of_mem_digits
  have hne := Decimal.digits_ne_nil n
  have hhead := Json.Numeral.head?_digits n
  rw [decimal?, Decimal.chars, hspan]
  generalize Decimal.digits n = ds at hne hhead
  match ds with
  | [] => exact absurd rfl hne
  | [0] => rfl
  | 0 :: _ :: _ => exact absurd (hhead rfl) nofun
  | (d + 1) :: ds => rfl

/-- A number is written without a sign. -/
theorem spanSign_chars (n : Nat) : spanSign (Decimal.chars n) = (false, Decimal.chars n) := by
  have hminus := Decimal.not_mem_chars n (c := '-') rfl
  have hplus := Decimal.not_mem_chars n (c := '+') rfl
  rw [spanSign]
  · intro cs he
    exact hminus (he ▸ List.mem_cons_self)
  · intro cs he
    exact hplus (he ▸ List.mem_cons_self)

/-- The digits of a number are read as the number, if it fits 64 bits with sign. -/
theorem integer?_chars {n : Nat} (h : n < integerBound) :
    integer? (Decimal.chars n) = some (n : Int) := by
  have hx := Decimal.not_mem_chars n (c := 'x') rfl
  have ho := Decimal.not_mem_chars n (c := 'o') rfl
  have hb := Decimal.not_mem_chars n (c := 'b') rfl
  rw [integer?, spanSign_chars]
  · dsimp only
    rw [decimal?_chars]
    dsimp only
    rw [if_neg Bool.false_ne_true, Decimal.value_digits, bounded?, if_pos]
    simp only [Bool.and_eq_true, decide_eq_true_eq]
    omega
  · intro cs he
    exact hx (he ▸ List.mem_cons_of_mem _ List.mem_cons_self)
  · intro cs he
    exact ho (he ▸ List.mem_cons_of_mem _ List.mem_cons_self)
  · intro cs he
    exact hb (he ▸ List.mem_cons_of_mem _ List.mem_cons_self)

/-! ### Words -/

/-- A line break ends a word. -/
theorem scalar?_word {word : List Char} {v : Toml} (hword : ∀ c ∈ word, isWordChar c = true)
    (hv : word? word = some v) (rest : List Char) :
    scalar? (word ++ '\n' :: rest) = some (v, '\n' :: rest) := by
  have htake : (word ++ '\n' :: rest).takeWhile isWordChar = word :=
    (List.takeWhile_append_of_pos hword).trans (List.append_nil word)
  have hdrop : (word ++ '\n' :: rest).dropWhile isWordChar = '\n' :: rest :=
    List.dropWhile_append_of_pos hword
  rw [scalar?, htake, hdrop]
  dsimp only
  rw [hv]
  rfl

theorem word?_chars {n : Nat} (h : n < integerBound) :
    word? (Decimal.chars n) = some (.integer n) := by
  have ht := Decimal.not_mem_chars n (c := 't') rfl
  have hf := Decimal.not_mem_chars n (c := 'f') rfl
  rw [word?, if_neg, if_neg, integer?_chars h]
  · intro he
    exact hf (he ▸ by decide)
  · intro he
    exact ht (he ▸ by decide)

/-- A number that fits 64 bits with sign is read back. -/
theorem scalar?_chars {n : Nat} (h : n < integerBound) (rest : List Char) :
    scalar? (Decimal.chars n ++ '\n' :: rest) = some (.integer n, '\n' :: rest) :=
  scalar?_word (fun _ => isWordChar_of_mem_chars) (word?_chars h) rest

/-- A truth value is read back. -/
theorem scalar?_boolean (b : Bool) (rest : List Char) :
    scalar? ((if b then "true".toList else "false".toList) ++ '\n' :: rest) =
      some (.boolean b, '\n' :: rest) := by
  cases b with
  | true =>
      refine scalar?_word (List.all_eq_true.1 (by decide)) ?_ rest
      exact if_pos rfl
  | false =>
      refine scalar?_word (List.all_eq_true.1 (by decide)) ?_ rest
      exact (if_neg (by decide)).trans (if_pos rfl)

end Toml

end HashCalendar
