/-
**Timestamps are read back.**

A timestamp that is written without its fraction is read back without it.  Its fields have fixed
widths, so each of them is read to its end and no further; second 60 is a leap second on both sides,
and universal time is ahead of itself by nothing.  The reader wants a year of four digits, and so a
year that is written with a sign is not read at all.

Only a leap second at the end of a minute has a text of its own.  One after any other second is
shown as the next second, and read as that; and nothing that is read is in such a leap second.

Main definitions:

* `HashCalendar.Timestamp.shown` — the timestamp that is read from the text without a fraction.

Main results:

* `HashCalendar.Timestamp.fixed?_digitsOf` — a number of fixed width is read back;
* `HashCalendar.Timestamp.ofFields?_shownSecond` — what the shown fields make up;
* `HashCalendar.Timestamp.ofStrictChars?_wholeChars` — **a written timestamp is read back** as it
  was shown, if its year has four digits;
* `HashCalendar.Timestamp.isRegular_of_ofStrictChars?` — leap seconds are read only at the ends of
  minutes.
-/

import HashCalendar.Proofs.Time.DayCount
import HashCalendar.Time.Printer
import HashCalendar.Time.Reader
import Mathlib.Algebra.Group.Nat.Defs
import Mathlib.Data.List.Induction

set_option relaxedAutoImplicit false
set_option autoImplicit false

namespace HashCalendar

/-! ### Numbers of a fixed width -/

namespace Decimal

theorem length_digits_le {n width : Nat} (hwidth : 0 < width) (h : n < 10 ^ width) :
    (digits n).length ≤ width := by
  fun_induction digits n generalizing width with
  | case1 n hn => exact hwidth
  | case2 n hn ih =>
      obtain ⟨w, rfl⟩ : ∃ w, width = w + 1 := ⟨width - 1, by omega⟩
      rw [Nat.pow_succ] at h
      have hw : 0 < w := by
        rcases Nat.eq_zero_or_pos w with rfl | hw
        · omega
        · exact hw
      rw [List.length_append, List.length_singleton]
      exact Nat.succ_le_succ (ih hw (by omega))

/-- A number that fits has as many digits as it shall have. -/
theorem length_padded {n width : Nat} (hwidth : 0 < width) (h : n < 10 ^ width) :
    (padded width n).length = width := by
  have := length_digits_le hwidth h
  rw [padded, List.length_append, List.length_replicate]
  omega

theorem value_lt {ds : List Nat} (h : ∀ d ∈ ds, d < 10) : value ds < 10 ^ ds.length := by
  induction ds using List.reverseRecOn with
  | nil => decide
  | append_singleton ds d ih =>
      have hd : d < 10 := h d (by simp)
      have hvalue := ih fun c hc => h c (List.mem_append_left _ hc)
      rw [value_append_singleton, List.length_append, List.length_singleton, Nat.pow_succ]
      omega

theorem lt_ten_of_ofChar? {c : Char} {d : Nat} (h : ofChar? c = some d) : d < 10 := by
  rw [ofChar?] at h
  split at h
  · next hc =>
      have hle : c.toNat ≤ 57 := hc.2
      obtain rfl := Option.some.inj h
      omega
  · cases h

/-- Zeros at the head do not count. -/
@[simp] theorem value_padded (width n : Nat) : value (padded width n) = n := by
  have hzeros : ∀ k, value (List.replicate k 0 ++ digits n) = value (digits n) := by
    intro k
    induction k with
    | zero => rfl
    | succ k ih => exact ih
  rw [padded, hzeros, value_digits]

theorem lt_ten_of_mem_padded {width n d : Nat} (h : d ∈ padded width n) : d < 10 := by
  rcases List.mem_append.1 h with h | h
  · rw [List.eq_of_mem_replicate h]
    decide
  · exact lt_ten_of_mem_digits h

end Decimal

namespace Timestamp

/-- As many digits are taken as were written. -/
theorem takeDigits_map_char {ds : List Nat} (h : ∀ d ∈ ds, d < 10) (rest : List Char) :
    takeDigits ds.length (ds.map Decimal.char ++ rest) = (ds, rest) := by
  induction ds with
  | nil => cases rest <;> rfl
  | cons d ds ih =>
      rw [List.forall_mem_cons] at h
      rw [List.length_cons, List.map_cons, List.cons_append, takeDigits, Decimal.ofChar?_char h.1]
      dsimp only
      rw [ih h.2]

/-- A number of fixed width is read back. -/
theorem fixed?_digitsOf {width n : Nat} (hwidth : 0 < width) (h : n < 10 ^ width)
    (rest : List Char) : fixed? width (digitsOf width n ++ rest) = some (n, rest) := by
  have hlength := Decimal.length_padded hwidth h
  have hdigits : ∀ d ∈ Decimal.padded width n, d < 10 :=
    fun _ => Decimal.lt_ten_of_mem_padded
  have htake := takeDigits_map_char hdigits rest
  rw [hlength] at htake
  rw [fixed?, digitsOf, htake]
  dsimp only
  rw [if_pos hlength, Decimal.value_padded]

/-- Two digits are read back. -/
theorem fixed?_two {n : Nat} (h : n < 100) (rest : List Char) :
    fixed? 2 (digitsOf 2 n ++ rest) = some (n, rest) := fixed?_digitsOf (by decide) h rest

/-! ### Fields -/

/-- Universal time is ahead of itself by nothing. -/
@[simp] theorem minus?_zero (t : Timestamp) : t.minus? 0 = some t := by
  obtain ⟨hhour, hminute, -⟩ := t.isTime
  rw [minus?, if_neg (by omega), if_neg (by omega), Option.bind_some, of?_eq_some_iff]
  exact ⟨rfl, by omega, by omega, rfl, rfl⟩

/-- Only the date, the hour and the minute depend on the offset. -/
theorem of_minus? {t u : Timestamp} {minutes : Int} (h : t.minus? minutes = some u) :
    u.second = t.second ∧ u.nanos = t.nanos := by
  rw [minus?] at h
  obtain ⟨date, -, hof⟩ := Option.bind_eq_some_iff.1 h
  obtain ⟨-, -, -, hsecond, hnanos⟩ := of?_eq_some_iff.1 hof
  exact ⟨hsecond, hnanos⟩

theorem truncate_nanos (t : Timestamp) :
    t.truncate.nanos = if t.inLeapSecond then 1000000000 else 0 := rfl

theorem shownSecond_lt (t : Timestamp) : t.shownSecond < 100 := by
  obtain ⟨-, -, hsecond, -⟩ := t.isTime
  rw [shownSecond]
  split <;> omega

/-- The full second after a leap second within a minute. -/
def following (t : Timestamp) (h : ¬ t.IsRegular) : Timestamp :=
  { t with
    second := t.second + 1
    nanos := 0
    isTime := by
      obtain ⟨hhour, hminute, hsecond, -⟩ := t.isTime
      have hne : t.second ≠ 59 := fun hlast => h fun _ => hlast
      exact ⟨hhour, hminute, by omega, by decide⟩ }

/-- The timestamp that is read from the text without a fraction. -/
def shown (t : Timestamp) : Timestamp :=
  if h : t.IsRegular then t.truncate else t.following h

/-- What the shown fields of a timestamp make up. -/
theorem ofFields?_shownSecond (t : Timestamp) :
    ofFields? t.date.year t.date.month t.date.day t.hour t.minute t.shownSecond 0 0 =
      some t.shown := by
  obtain ⟨-, -, hsecond, -⟩ := t.isTime
  rw [ofFields?, Date.of?_eq_some, shownSecond, shown]
  by_cases hregular : t.IsRegular
  · rw [dif_pos hregular]
    cases h : t.inLeapSecond with
    | true =>
        have hlast : t.second = 59 := hregular h
        have htruncate : of? t.date t.hour t.minute 59 1000000000 = some t.truncate :=
          of?_eq_some_iff.2 ⟨rfl, rfl, rfl, hlast, by rw [truncate_nanos, h]; rfl⟩
        rw [hlast]
        simp [htruncate]
    | false =>
        have htruncate : of? t.date t.hour t.minute t.second 0 = some t.truncate :=
          of?_eq_some_iff.2 ⟨rfl, rfl, rfl, rfl, by rw [truncate_nanos, h]; rfl⟩
        have hne : t.second ≠ 60 := by omega
        simp [hne, htruncate]
  · rw [dif_neg hregular]
    obtain ⟨hleap, hne⟩ := Classical.not_imp.1 hregular
    have hfollowing : of? t.date t.hour t.minute (t.second + 1) 0 = some (t.following hregular) :=
      of?_eq_some_iff.2 ⟨rfl, rfl, rfl, rfl, rfl⟩
    rw [if_pos hleap]
    simp [hne, hfollowing]

/-- Leap seconds come about only at the ends of minutes. -/
theorem isRegular_of_ofFields? {year : Int} {month day hour minute second nanos : Nat}
    {offset : Int} (hnanos : nanos < 1000000000) {t : Timestamp}
    (h : ofFields? year month day hour minute second nanos offset = some t) : t.IsRegular := by
  rw [isRegular_iff]
  rw [ofFields?] at h
  obtain ⟨date, -, h⟩ := Option.bind_eq_some_iff.1 h
  dsimp only at h
  split at h
  · obtain ⟨u, hu, hminus⟩ := Option.bind_eq_some_iff.1 h
    obtain ⟨-, -, -, hlast, -⟩ := of?_eq_some_iff.1 hu
    exact fun _ => (of_minus? hminus).1.trans hlast
  · obtain ⟨u, hu, hminus⟩ := Option.bind_eq_some_iff.1 h
    obtain ⟨-, -, -, -, hsame⟩ := of?_eq_some_iff.1 hu
    rw [(of_minus? hminus).2, hsame]
    omega

/-! ### Texts -/

/-- A year of four digits. -/
theorem fixed?_yearChars {year : Int} (h : 0 ≤ year ∧ year ≤ 9999) (rest : List Char) :
    fixed? 4 (yearChars year ++ rest) = some (year.toNat, rest) := by
  rw [yearChars, if_pos h]
  exact fixed?_digitsOf (by decide) (by omega) rest

/-- A year with a sign. -/
theorem fixed?_yearChars_of_not {year : Int} (h : ¬ (0 ≤ year ∧ year ≤ 9999)) (rest : List Char) :
    fixed? 4 (yearChars year ++ rest) = none := by
  rw [yearChars, if_neg h]
  split <;> rfl

@[simp] theorem expect?_self (c : Char) (rest : List Char) : expect? c (c :: rest) = some rest := by
  rw [expect?, if_pos rfl]

@[simp] theorem joint?_self (rest : List Char) : joint? ('T' :: rest) = some rest := rfl

theorem wholeChars_append (t : Timestamp) (rest : List Char) :
    t.wholeChars ++ rest = yearChars t.date.year ++ '-' :: (digitsOf 2 t.date.month ++
      '-' :: (digitsOf 2 t.date.day ++ 'T' :: (digitsOf 2 t.hour ++ ':' :: (digitsOf 2 t.minute ++
        ':' :: (digitsOf 2 t.shownSecond ++ rest))))) := by
  simp only [wholeChars, List.append_assoc, List.cons_append]

/-- **A written timestamp is read back** as it was shown, if its year has four digits; another one
is not read. -/
theorem ofStrictChars?_wholeChars (t : Timestamp) :
    ofStrictChars? (t.wholeChars ++ ['Z']) =
      if 0 ≤ t.date.year ∧ t.date.year ≤ 9999 then some t.shown else none := by
  obtain ⟨-, -, -, hmonth, -, hday⟩ := t.date.isDate
  obtain ⟨hhour, hminute, -⟩ := t.isTime
  have hmonth : t.date.month < 100 := by omega
  have hday : t.date.day < 100 := by
    rw [daysInMonth] at hday
    split at hday <;> split at hday <;> omega
  have hhour : t.hour < 100 := by omega
  have hminute : t.minute < 100 := by omega
  rw [wholeChars_append, ofStrictChars?]
  by_cases h : 0 ≤ t.date.year ∧ t.date.year ≤ 9999
  · have hyear : (t.date.year.toNat : Int) = t.date.year := Int.toNat_of_nonneg h.1
    have hfraction : fraction? ['Z'] = some (0, ['Z']) := rfl
    have hoffset : offset? (expect? ':') ['Z'] = some (0, []) := rfl
    rw [if_pos h, fixed?_yearChars h]
    simp [fixed?_two, hmonth, hday, hhour, hminute, shownSecond_lt, hfraction, hoffset, hyear,
      ofFields?_shownSecond]
  · rw [if_neg h, fixed?_yearChars_of_not h]
    rfl

/-! ### What is read -/

/-- What is taken are digits, and no more than may be. -/
theorem of_takeDigits {limit : Nat} {cs : List Char} :
    (takeDigits limit cs).1.length ≤ limit ∧ ∀ d ∈ (takeDigits limit cs).1, d < 10 := by
  fun_induction takeDigits limit cs with
  | case1 limit c rest d hd ds after htake ih =>
      rw [htake] at ih
      refine ⟨Nat.succ_le_succ ih.1, ?_⟩
      rw [List.forall_mem_cons]
      exact ⟨Decimal.lt_ten_of_ofChar? hd, ih.2⟩
  | case2 limit c rest hd => exact ⟨Nat.zero_le _, by simp⟩
  | case3 limit cs hno => exact ⟨Nat.zero_le _, by simp⟩

/-- A fraction is less than a second. -/
theorem fraction?_lt {cs rest : List Char} {nanos : Nat} (h : fraction? cs = some (nanos, rest)) :
    nanos < 1000000000 := by
  unfold fraction? at h
  split at h
  · next digits =>
      split at h
      · cases h
      · next ds after hne htake =>
          have hdigits := @of_takeDigits 9 digits
          rw [htake] at hdigits
          obtain ⟨hlength, hlt⟩ := hdigits
          obtain rfl := congrArg Prod.fst (Option.some.inj h)
          calc Decimal.value ds * Nat.pow 10 (9 - ds.length)
              < 10 ^ ds.length * 10 ^ (9 - ds.length) :=
                Nat.mul_lt_mul_of_pos_right (Decimal.value_lt hlt) (Nat.pow_pos (by decide))
            _ = 10 ^ 9 := by rw [← Nat.pow_add, Nat.add_sub_cancel' hlength]
            _ = 1000000000 := by decide
  · cases h
    decide

/-- **Leap seconds are read only at the ends of minutes.** -/
theorem isRegular_of_ofStrictChars? {cs : List Char} {t : Timestamp}
    (h : ofStrictChars? cs = some t) : t.IsRegular := by
  rw [ofStrictChars?] at h
  simp only [Option.bind_eq_bind, Option.bind_eq_some_iff, Prod.exists] at h
  obtain ⟨year, _, -, _, -, month, _, -, _, -, day, _, -, _, -, hour, _, -, _, -, minute, _, -,
    _, -, second, _, -, nanos, _, hnanos, offset, _, -, h⟩ := h
  split at h
  · cases h
  · exact isRegular_of_ofFields? (fraction?_lt hnanos) h

end Timestamp

end HashCalendar
