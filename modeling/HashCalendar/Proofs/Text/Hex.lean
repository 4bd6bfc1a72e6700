/-
**Hexadecimal text in either case.**

Hexadecimal digits of either case are read, but lower-case ones are written.  So a text that is read
and written again comes out in lower case, and is otherwise as it was.  Which texts are read is said
here in terms of their characters, and not of their bytes.

Main definitions:

* `HashCalendar.Hex.IsDigitChar` — the hexadecimal digits of either case;
* `HashCalendar.Digest.IsWritten` — the texts that a digest is read from.

Main results:

* `HashCalendar.Hex.encode_of_decode` — **what was read is written in lower case**;
* `HashCalendar.Hex.isHex_iff` — an even number of digits is read;
* `HashCalendar.Digest.ofHex_isOk_iff` — 64 digits are a digest.
-/

import HashCalendar.Hash.Digest
import Mathlib.Data.List.Basic

set_option relaxedAutoImplicit false
set_option autoImplicit false

namespace HashCalendar

namespace Hex

/-- The hexadecimal digits of either case. -/
def IsDigitChar (c : Char) : Prop :=
  ('0' ≤ c ∧ c ≤ '9') ∨ ('a' ≤ c ∧ c ≤ 'f') ∨ ('A' ≤ c ∧ c ≤ 'F')

instance (c : Char) : Decidable (IsDigitChar c) := inferInstanceAs (Decidable (_ ∨ _))

/-! ### Digits as bytes -/

theorem isDigitChar_iff (c : Char) : IsDigitChar c ↔
    (48 ≤ c.toNat ∧ c.toNat ≤ 57) ∨ (97 ≤ c.toNat ∧ c.toNat ≤ 102) ∨
      (65 ≤ c.toNat ∧ c.toNat ≤ 70) := Iff.rfl

/-- The byte of a character below 128. -/
def charByte (c : Char) : UInt8 := UInt8.ofNat c.toNat

theorem utf8EncodeChar_of_lt {c : Char} (h : c.toNat < 128) :
    String.utf8EncodeChar c = [charByte c] := by
  have hle : c.val.toNat ≤ 127 := by
    have : c.val.toNat = c.toNat := rfl
    omega
  rw [String.utf8EncodeChar, if_pos hle]
  rfl

theorem isDigit_eq_false {b : UInt8} (h : 128 ≤ b.toNat) : isDigit b = false := by
  have hnone : digitValue? b = none := by
    simp only [digitValue?]
    rw [if_neg (by omega), if_neg (by omega), if_neg (by omega)]
  rw [isDigit, hnone]
  rfl

/-- A character beyond ASCII has a byte that is no digit. -/
theorem exists_not_isDigit {c : Char} (h : 128 ≤ c.toNat) :
    ∃ b ∈ String.utf8EncodeChar c, isDigit b = false := by
  have hlarge : ∀ n, 128 ≤ n → n < 256 → isDigit (UInt8.ofNat n) = false := by
    intro n hn hlt
    refine isDigit_eq_false ?_
    rw [UInt8.toNat_ofNat']
    omega
  have hle : ¬ c.val.toNat ≤ 127 := by
    have : c.val.toNat = c.toNat := rfl
    omega
  rw [String.utf8EncodeChar, if_neg hle]
  split
  · exact ⟨_, List.mem_cons_self, hlarge _ (by omega) (by omega)⟩
  · split
    · exact ⟨_, List.mem_cons_self, hlarge _ (by omega) (by omega)⟩
    · exact ⟨_, List.mem_cons_self, hlarge _ (by omega) (by omega)⟩

theorem isDigit_charByte {c : Char} (h : c.toNat < 128) :
    isDigit (charByte c) = true ↔ IsDigitChar c := by
  have hbyte : (charByte c).toNat = c.toNat := by
    rw [charByte, UInt8.toNat_ofNat']
    omega
  rw [isDigitChar_iff, isDigit, digitValue?, hbyte]
  split
  · simp; omega
  · split
    · simp; omega
    · split
      · simp; omega
      · simp; omega

/-- The bytes of a text are digits where its characters are, and then they are as many. -/
theorem forall_isDigit_iff (cs : List Char) :
    (∀ b ∈ cs.flatMap String.utf8EncodeChar, isDigit b = true) ↔ ∀ c ∈ cs, IsDigitChar c := by
  constructor
  · intro h c hc
    have hbytes : ∀ b ∈ String.utf8EncodeChar c, isDigit b = true :=
      fun b hb => h b (List.mem_flatMap.2 ⟨c, hc, hb⟩)
    by_cases hlt : c.toNat < 128
    · rw [utf8EncodeChar_of_lt hlt] at hbytes
      exact (isDigit_charByte hlt).1 (hbytes _ List.mem_cons_self)
    · obtain ⟨b, hb, hnot⟩ := exists_not_isDigit (Nat.le_of_not_lt hlt)
      rw [hbytes b hb] at hnot
      cases hnot
  · intro h b hb
    obtain ⟨c, hc, hb⟩ := List.mem_flatMap.1 hb
    have hdigit := h c hc
    have hlt : c.toNat < 128 := by
      have := (isDigitChar_iff c).1 hdigit
      omega
    rw [utf8EncodeChar_of_lt hlt, List.mem_singleton] at hb
    rw [hb]
    exact (isDigit_charByte hlt).2 hdigit

theorem flatMap_utf8EncodeChar {cs : List Char} (h : ∀ c ∈ cs, IsDigitChar c) :
    cs.flatMap String.utf8EncodeChar = cs.map charByte := by
  rw [List.map_eq_flatMap]
  refine List.flatMap_congr ?_
  intro c hc
  have := (isDigitChar_iff c).1 (h c hc)
  exact utf8EncodeChar_of_lt (by omega)

theorem encode_eq_flatMap (text : String) :
    Text.encode text = text.toList.flatMap String.utf8EncodeChar := by
  rw [← Text.encode_ofList, String.ofList_toList]

/-- A text is read if it has an even number of characters, all of which are digits. -/
theorem isHex_iff (text : String) :
    IsHex text ↔ text.length % 2 = 0 ∧ ∀ c ∈ text.toList, IsDigitChar c := by
  rw [IsHex, encode_eq_flatMap, forall_isDigit_iff]
  refine and_congr_left ?_
  intro h
  rw [flatMap_utf8EncodeChar h, List.length_map, String.length_toList]

/-! ### What was read is written in lower case -/

/-- The digit of the value of a digit is that digit in lower case. -/
theorem digit_digitValue : ∀ n < 128, ∀ v ∈ digitValue? (UInt8.ofNat n),
    v < 16 ∧ digit v = (Char.ofNat n).toLower := by
  decide

/-- A pair that was read is two digits, and their byte comes first. -/
theorem exists_of_decodePairs {position : Nat} {high low : UInt8} {rest bs : Bytes}
    (h : decodePairs position (high :: low :: rest) = .ok bs) :
    ∃ vh vl others, digitValue? high = some vh ∧ digitValue? low = some vl ∧
      decodePairs (position + 2) rest = .ok others ∧
      bs = UInt8.ofNat (16 * vh + vl) :: others := by
  rw [decodePairs] at h
  cases hh : digitValue? high with
  | none =>
      rw [hh] at h
      cases h
  | some vh =>
      cases hl : digitValue? low with
      | none =>
          rw [hh, hl] at h
          cases h
      | some vl =>
          cases hrest : decodePairs (position + 2) rest with
          | error e =>
              rw [hh, hl, hrest] at h
              cases h
          | ok others =>
              rw [hh, hl, hrest] at h
              exact ⟨vh, vl, others, rfl, rfl, rfl, (Except.ok.inj h).symm⟩

/-- The two digits of a byte that was put together from two values. -/
theorem byteDigits_ofNat {vh vl : Nat} (hh : vh < 16) (hl : vl < 16) :
    byteDigits (UInt8.ofNat (16 * vh + vl)) = [digit vh, digit vl] := by
  have hbyte : (UInt8.ofNat (16 * vh + vl)).toNat = 16 * vh + vl := by
    rw [UInt8.toNat_ofNat']
    omega
  have hdiv : (16 * vh + vl) / 16 = vh := by omega
  have hmod : (16 * vh + vl) % 16 = vl := by omega
  rw [byteDigits, hbyte, hdiv, hmod]

/-- The digits that are read in pairs are the bytes in lower case. -/
theorem flatMap_byteDigits : ∀ {position : Nat} {cs : List Char} {bs : Bytes},
    cs.length % 2 = 0 → (∀ c ∈ cs, IsDigitChar c) →
    decodePairs position (cs.map charByte) = .ok bs → bs.flatMap byteDigits = cs.map Char.toLower
  | _, [], bs, _, _, h => by
      cases h
      rfl
  | _, [_], _, heven, _, _ => by
      cases heven
  | position, high :: low :: cs, bs, heven, hdigits, h => by
      have hvalue : ∀ c ∈ high :: low :: cs, ∀ v ∈ digitValue? (charByte c),
          v < 16 ∧ digit v = c.toLower := by
        intro c hc
        have hlt : c.toNat < 128 := by
          have := (isDigitChar_iff c).1 (hdigits c hc)
          omega
        have hdigit := digit_digitValue c.toNat hlt
        rwa [Char.ofNat_toNat] at hdigit
      obtain ⟨vh, vl, others, hh, hl, hrest, rfl⟩ := exists_of_decodePairs h
      obtain ⟨hlt, hhigh⟩ := hvalue high List.mem_cons_self vh hh
      obtain ⟨hlt', hlow⟩ := hvalue low (by simp) vl hl
      have heven' : cs.length % 2 = 0 := by
        rw [List.length_cons, List.length_cons] at heven
        omega
      have ih := flatMap_byteDigits heven' (fun c hc => hdigits c (by simp [hc])) hrest
      rw [List.flatMap_cons, ih, byteDigits_ofNat hlt hlt', hhigh, hlow]
      rfl

theorem toList_toLower (text : String) : text.toLower.toList = text.toList.map Char.toLower :=
  String.toList_map

/-- What was read is written in lower case. -/
theorem encode_of_decode {text : String} {bs : Bytes} (h : decode text = .ok bs) :
    encode bs = text.toLower := by
  have hhex : IsHex text := by
    rw [← decode_isOk_iff, h]
    rfl
  obtain ⟨heven, hdigits⟩ := (isHex_iff text).1 hhex
  have hodd : ¬ (Text.encode text).length % 2 = 1 := by
    have := hhex.1
    omega
  rw [decode, decodeBytes, if_neg hodd, encode_eq_flatMap, flatMap_utf8EncodeChar hdigits] at h
  rw [encode, flatMap_byteDigits (String.length_toList ▸ heven) hdigits h, ← toList_toLower,
    String.ofList_toList]

/-- Two characters are read as one byte. -/
theorem length_of_decode {text : String} {bs : Bytes} (h : decode text = .ok bs) :
    2 * bs.length = text.length := by
  have hlength := congrArg (fun s => s.toList.length) (encode_of_decode h)
  rw [encode, String.toList_ofList, toList_toLower, List.length_map, List.length_flatMap,
    String.length_toList] at hlength
  simpa [byteDigits, Nat.mul_comm] using hlength

end Hex

/-! ### Written digests -/

namespace Digest

/-- The texts that a digest is read from: 64 hexadecimal digits of either case. -/
def IsWritten (text : String) : Prop := text.length = 64 ∧ ∀ c ∈ text.toList, Hex.IsDigitChar c

instance (text : String) : Decidable (IsWritten text) := inferInstanceAs (Decidable (_ ∧ _))

/-- A digest is read from 64 hexadecimal digits and from nothing else. -/
theorem ofHex_isOk_iff (text : String) : (ofHex text).isOk = true ↔ IsWritten text := by
  rw [ofHex]
  cases hdecode : Hex.decode text with
  | error e =>
      have hnot : ¬ Hex.IsHex text := by
        rw [← Hex.decode_isOk_iff, hdecode]
        exact Bool.false_ne_true
      constructor
      · intro h
        cases h
      · rintro ⟨hlength, hdigits⟩
        exact absurd ((Hex.isHex_iff text).2 ⟨by omega, hdigits⟩) hnot
  | ok bs =>
      have hhex : Hex.IsHex text := by
        rw [← Hex.decode_isOk_iff, hdecode]
        rfl
      have hlength := Hex.length_of_decode hdecode
      simp only [ofBytes]
      by_cases h : bs.length = 32
      · rw [dif_pos h]
        exact ⟨fun _ => ⟨by omega, ((Hex.isHex_iff text).1 hhex).2⟩, fun _ => rfl⟩
      · rw [dif_neg h]
        constructor
        · intro hok
          cases hok
        · rintro ⟨hlength', -⟩
          omega

/-- A digest that was read is written in lower case. -/
theorem toHex_of_ofHex {text : String} {d : Digest} (h : ofHex text = .ok d) :
    d.toHex = text.toLower := by
  rw [ofHex] at h
  cases hdecode : Hex.decode text with
  | error e =>
      rw [hdecode] at h
      cases h
  | ok bs =>
      rw [hdecode] at h
      rw [toHex, ← ofBytes_eq_ok_iff.1 h]
      exact Hex.encode_of_decode hdecode

end Digest

end HashCalendar
