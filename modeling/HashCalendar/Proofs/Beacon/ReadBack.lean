/-
**Beacon tags are read back.**

The last colon of a tag is the one before the output of the beacon, as there is no colon in
hexadecimal text; those within the time come before it.  So a tag is read as the time that was
shown and the output to the letter.  The time is shown to the second: what is read is the value
without the fraction of its second, a leap second at the end of a minute stays one, and the tag of
it is the same again.  A leap second within a minute shares its tag with the next second, and that
is what is read.  Only years of four digits are read.

Main results:

* `HashCalendar.BeaconValue.isOutput_iff` — which outputs are accepted;
* `HashCalendar.BeaconValue.ofTag_tag` — what the tag of a value is read as;
* `HashCalendar.tags_read_back` — **tags are read back**, of values and of what was read;
* `HashCalendar.leap_second_within_minute_is_lost` — but a leap second within a minute is not.
-/

import HashCalendar.Beacon.Value
import HashCalendar.Proofs.Text.Hex
import HashCalendar.Proofs.Time.ReadBack

set_option relaxedAutoImplicit false
set_option autoImplicit false

namespace HashCalendar

/-! ### Without the fraction of the second -/

namespace Timestamp

@[simp] theorem inLeapSecond_truncate (t : Timestamp) :
    t.truncate.inLeapSecond = t.inLeapSecond := by
  rw [inLeapSecond, truncate_nanos]
  cases t.inLeapSecond with
  | true => rfl
  | false => rfl

/-- A timestamp has its Unix seconds without its fraction. -/
@[simp] theorem unix_truncate (t : Timestamp) : t.truncate.unix = t.unix := rfl

theorem shown_of_isRegular {t : Timestamp} (h : t.IsRegular) : t.shown = t.truncate := dif_pos h

/-- A leap second within a minute is taken for the second after it. -/
theorem of_not_isRegular {t : Timestamp} (h : ¬ t.IsRegular) :
    t.shown.unix = t.unix + 1 ∧ t.shown.nanos = 0 := by
  rw [shown, dif_neg h]
  refine ⟨?_, rfl⟩
  rw [unix, unix]
  simp only [following]
  omega

/-- What is shown does not change when it is shown again. -/
@[simp] theorem seconds_shown (t : Timestamp) : t.shown.seconds = t.seconds := by
  have hsame : t.shown.date = t.date ∧ t.shown.hour = t.hour ∧ t.shown.minute = t.minute ∧
      t.shown.shownSecond = t.shownSecond := by
    by_cases h : t.IsRegular
    · rw [shown_of_isRegular h, shownSecond, inLeapSecond_truncate]
      exact ⟨rfl, rfl, rfl, rfl⟩
    · rw [shown, dif_neg h, shownSecond, shownSecond, if_pos (Classical.not_imp.1 h).1]
      exact ⟨rfl, rfl, rfl, rfl⟩
  obtain ⟨hdate, hhour, hminute, hsecond⟩ := hsame
  rw [seconds, seconds, wholeChars, wholeChars, hdate, hhour, hminute, hsecond]

end Timestamp

namespace BeaconValue

/-! ### The last colon -/

theorem splitLastColon_eq_none {cs : List Char} (h : ':' ∉ cs) : splitLastColon cs = none := by
  induction cs with
  | nil => rfl
  | cons c cs ih =>
      rw [List.mem_cons, not_or] at h
      rw [splitLastColon, ih h.2]
      exact if_neg (Ne.symm h.1)

/-- A colon that is followed by none is the last one. -/
theorem splitLastColon_append (before : List Char) {after : List Char} (h : ':' ∉ after) :
    splitLastColon (before ++ ':' :: after) = some (before, after) := by
  induction before with
  | nil => rw [List.nil_append, splitLastColon, splitLastColon_eq_none h]; rfl
  | cons c before ih => rw [List.cons_append, splitLastColon, ih]

/-! ### Outputs -/

/-- Hexadecimal text of either case is accepted unless it is empty. -/
theorem isOutput_iff (value : String) : isOutput value = true ↔
    value ≠ "" ∧ value.length % 2 = 0 ∧ ∀ c ∈ value.toList, Hex.IsDigitChar c := by
  rw [← Hex.isHex_iff, ← Hex.decode_isOk_iff, isOutput, Bool.and_eq_true, decide_eq_true_eq]
  refine and_congr_right fun _ => ?_
  cases Hex.decode value with
  | ok bs => exact Iff.rfl
  | error e => exact Iff.rfl

theorem colon_not_mem {value : String} (h : isOutput value = true) : ':' ∉ value.toList := by
  intro hcolon
  obtain ⟨-, -, hdigits⟩ := (isOutput_iff value).1 h
  exact absurd (hdigits ':' hcolon) (by decide)

theorem of_eq_ok_iff {timestamp : Timestamp} {value : String} {v : BeaconValue} :
    of timestamp value = .ok v ↔ isOutput value = true ∧ v = ⟨timestamp, value⟩ := by
  rw [of]
  by_cases h : isOutput value = true
  · rw [if_pos h, Except.ok.injEq, eq_comm]
    exact ⟨fun hv => ⟨h, hv⟩, And.right⟩
  · rw [if_neg h]
    exact ⟨nofun, fun hv => absurd hv.1 h⟩

/-! ### Tags -/

theorem tag_toList (v : BeaconValue) :
    v.tag.toList = (v.timestamp.wholeChars ++ ['Z']) ++ ':' :: v.value.toList := by
  rw [tag, String.toList_append, String.toList_append, Timestamp.seconds, String.toList_ofList,
    List.append_assoc]
  rfl

/-- The tag of a value is read as the value at the time that was shown, if its year has four
digits. -/
theorem ofTag_tag {v : BeaconValue} (h : isOutput v.value = true) :
    ofTag v.tag =
      if 0 ≤ v.timestamp.date.year ∧ v.timestamp.date.year ≤ 9999 then
        .ok ⟨v.timestamp.shown, v.value⟩
      else .error (.beacon .timestamp) := by
  rw [ofTag, tag_toList, splitLastColon_append _ (colon_not_mem h)]
  dsimp only
  rw [Timestamp.ofStrictChars?_wholeChars]
  by_cases hyear : 0 ≤ v.timestamp.date.year ∧ v.timestamp.date.year ≤ 9999
  · rw [if_pos hyear, if_pos hyear, String.ofList_toList]
    exact of_eq_ok_iff.2 ⟨h, rfl⟩
  · rw [if_neg hyear, if_neg hyear]

/-- What was read has an output, and it is in a leap second only at the end of a minute. -/
theorem of_ofTag {s : String} {v : BeaconValue} (h : ofTag s = .ok v) :
    isOutput v.value = true ∧ v.timestamp.IsRegular := by
  rw [ofTag] at h
  split at h
  · cases h
  · split at h
    · cases h
    · next t hread =>
        obtain ⟨houtput, rfl⟩ := of_eq_ok_iff.1 h
        exact ⟨houtput, Timestamp.isRegular_of_ofStrictChars? hread⟩

end BeaconValue

/-- **Tags are read back.**

* A time and a text make up a beacon value if the text is hexadecimal, of either case, and not
  empty; every time can be had from its Unix seconds and its nanoseconds, unless it is in a leap
  second within a minute.
* The tag of a value is read if its year has four digits.  What is read is the value without the
  fraction of its second, with the text to the letter; only where the value is in a leap second
  within a minute it is the value at the next second.  Either way its tag is the same again.
* What was read from any text is not in a leap second within a minute.  So its tag is read as what
  was read, without the fraction of its second, if its year has four digits.
* Without its fraction a time has the same Unix seconds, and it is in a leap second if it was. -/
theorem tags_read_back :
    (∀ timestamp value, (BeaconValue.of timestamp value).isOk = true ↔
      value ≠ "" ∧ value.length % 2 = 0 ∧ ∀ c ∈ value.toList, Hex.IsDigitChar c) ∧
    (∀ (seconds : Int) (nanos : Nat) (t : Timestamp),
      Timestamp.ofUnix? seconds nanos = some t ↔
        t.unix = seconds ∧ t.nanos = nanos ∧ t.IsRegular) ∧
    (∀ timestamp value v, BeaconValue.of timestamp value = .ok v →
      ((BeaconValue.ofTag v.tag).isOk = true ↔
        0 ≤ timestamp.date.year ∧ timestamp.date.year ≤ 9999) ∧
      (0 ≤ timestamp.date.year → timestamp.date.year ≤ 9999 → timestamp.IsRegular →
        BeaconValue.ofTag v.tag = .ok ⟨timestamp.truncate, value⟩) ∧
      ∀ w, BeaconValue.ofTag v.tag = .ok w → w.value = value ∧ w.tag = v.tag ∧
        (¬ timestamp.IsRegular →
          w.timestamp.unix = timestamp.unix + 1 ∧ w.timestamp.nanos = 0)) ∧
    (∀ s v, BeaconValue.ofTag s = .ok v → v.timestamp.IsRegular ∧
      (0 ≤ v.timestamp.date.year → v.timestamp.date.year ≤ 9999 →
        BeaconValue.ofTag v.tag = .ok ⟨v.timestamp.truncate, v.value⟩)) ∧
    ∀ t : Timestamp, t.truncate.unix = t.unix ∧ t.truncate.inLeapSecond = t.inLeapSecond ∧
      t.truncate.nanos = if t.inLeapSecond then 1000000000 else 0 := by
  refine ⟨?_, fun _ _ _ => Timestamp.ofUnix?_eq_some_iff, ?_, ?_, ?_⟩
  · intro timestamp value
    rw [← BeaconValue.isOutput_iff, BeaconValue.of]
    cases BeaconValue.isOutput value with
    | true => exact Iff.rfl
    | false => exact Iff.rfl
  · intro timestamp value v hv
    obtain ⟨houtput, rfl⟩ := BeaconValue.of_eq_ok_iff.1 hv
    rw [BeaconValue.ofTag_tag houtput]
    by_cases hyear : 0 ≤ timestamp.date.year ∧ timestamp.date.year ≤ 9999
    · rw [if_pos hyear]
      refine ⟨⟨fun _ => hyear, fun _ => rfl⟩, fun _ _ hregular => ?_, ?_⟩
      · rw [Timestamp.shown_of_isRegular hregular]
      · rintro w ⟨⟩
        refine ⟨rfl, ?_, Timestamp.of_not_isRegular⟩
        rw [BeaconValue.tag, BeaconValue.tag, Timestamp.seconds_shown]
    · rw [if_neg hyear]
      exact ⟨⟨nofun, fun h => absurd h hyear⟩, fun h h' => absurd ⟨h, h'⟩ hyear, fun _ => nofun⟩
  · intro s v hv
    obtain ⟨houtput, hregular⟩ := BeaconValue.of_ofTag hv
    refine ⟨hregular, fun h h' => ?_⟩
    rw [BeaconValue.ofTag_tag houtput, if_pos ⟨h, h'⟩, Timestamp.shown_of_isRegular hregular]
  · intro t
    exact ⟨t.unix_truncate, t.inLeapSecond_truncate, t.truncate_nanos⟩

/-- Half a second into the leap second at the end of 2016, also as a local time of the next year. -/
theorem leap_second_is_read_back :
    let t : Timestamp := ⟨⟨2016, 12, 31, by decide⟩, 23, 59, 59, 1500000000, by decide⟩
    let v : BeaconValue := ⟨t, "aBcD"⟩
    let s := "2017-01-01t05:29:60.5+05:30:aBcD"
    v.tag = "2016-12-31T23:59:60Z:aBcD" ∧
      (BeaconValue.of t "aBcD" = .ok v ∧ (0 ≤ t.date.year ∧ t.date.year ≤ 9999) ∧
        t.IsRegular ∧ BeaconValue.ofTag v.tag = .ok ⟨t.truncate, "aBcD"⟩) ∧
      (BeaconValue.ofTag s = .ok v ∧ (0 ≤ v.timestamp.date.year ∧ v.timestamp.date.year ≤ 9999) ∧
        BeaconValue.ofTag v.tag = .ok ⟨v.timestamp.truncate, v.value⟩) := by
  intro t v s
  have hof : BeaconValue.of t "aBcD" = .ok v := by decide +kernel
  have hread : BeaconValue.ofTag s = .ok v := by decide +kernel
  have hyear : 0 ≤ t.date.year ∧ t.date.year ≤ 9999 := by decide
  have hregular : t.IsRegular := by decide
  obtain ⟨-, -, hwritten, hagain, -⟩ := tags_read_back
  exact ⟨by decide +kernel,
    ⟨hof, hyear, hregular, (hwritten t "aBcD" v hof).2.1 hyear.1 hyear.2 hregular⟩,
    hread, hyear, (hagain s v hread).2 hyear.1 hyear.2⟩

/-- Half a second into a leap second after the fourth second of a minute: the tag shows the fifth
second, and this is what is read. -/
theorem leap_second_within_minute_is_lost :
    let t : Timestamp := ⟨⟨2024, 1, 1, by decide⟩, 0, 0, 4, 1500000000, by decide⟩
    let v : BeaconValue := ⟨t, "ab"⟩
    BeaconValue.of t "ab" = .ok v ∧ (0 ≤ t.date.year ∧ t.date.year ≤ 9999) ∧
      v.tag = "2024-01-01T00:00:05Z:ab" ∧
      BeaconValue.ofTag v.tag = .ok ⟨⟨⟨2024, 1, 1, by decide⟩, 0, 0, 5, 0, by decide⟩, "ab"⟩ ∧
      BeaconValue.ofTag v.tag ≠ .ok ⟨t.truncate, "ab"⟩ := by
  decide +kernel

end HashCalendar
