/-
**Which submissions are taken, and as what.**

A payload is taken if it has an id and if its hash is written with 40 to 128 hexadecimal digits, of
either case and in even number.  The id and the text of the hash are kept to the letter, and the
bytes of the hash are those that the text stands for, so that the echoed text and the hashed bytes
cannot drift apart.  Other payloads are refused: without an id for that reason alone, and otherwise
for their digits before it comes to their number.  The bytes that are written for a payload are
dealt with as the payload itself.

Main definitions:

* `HashCalendar.Submission.IsHashText` — the texts of hashes that are taken;
* `HashCalendar.Submission.Keeps` — what a submission has from its payload;
* `HashCalendar.Submission.Refuses` — why a payload is refused.

Main results:

* `HashCalendar.Submission.ofPayload_isOk_iff` — which payloads are taken;
* `HashCalendar.Submission.ofPayload_eq_error_iff` — why the others are refused;
* `HashCalendar.submissions_taken_as_sent` — **all of this together, also for written payloads**.
-/

import HashCalendar.Proofs.Text.Hex
import HashCalendar.Proofs.Wire.ReadBack

set_option relaxedAutoImplicit false
set_option autoImplicit false

namespace HashCalendar

namespace Hex

/-- A hexadecimal text has bytes, which are written as the text in lower case. -/
theorem exists_decode {text : String} (h : IsHex text) :
    ∃ bs, decode text = .ok bs ∧ 2 * bs.length = text.length ∧ encode bs = text.toLower := by
  have hok := (decode_isOk_iff text).2 h
  cases hdecode : decode text with
  | error e =>
      rw [hdecode] at hok
      cases hok
  | ok bs => exact ⟨bs, rfl, length_of_decode hdecode, encode_of_decode hdecode⟩

/-- Any other text is refused. -/
theorem exists_decode_error {text : String} (h : ¬ IsHex text) :
    ∃ cause, decode text = .error cause := by
  rw [← decode_isOk_iff] at h
  cases hdecode : decode text with
  | error cause => exact ⟨cause, rfl⟩
  | ok bs =>
      rw [hdecode] at h
      exact absurd rfl h

end Hex

namespace Submission

/-! ### Three kinds of payloads -/

/-- The texts of hashes that are taken. -/
structure IsHashText (text : String) : Prop where
  digits : ∀ c ∈ text.toList, Hex.IsDigitChar c
  even : text.length % 2 = 0
  le_length : 40 ≤ text.length
  length_le : text.length ≤ 128

/-- Two digits make a byte, of which a hash has 20 to 64. -/
theorem isHashText_iff {text : String} :
    IsHashText text ↔ Hex.IsHex text ∧ 40 ≤ text.length ∧ text.length ≤ 128 := by
  rw [Hex.isHex_iff]
  constructor
  · rintro ⟨hdigits, heven, hmin, hmax⟩
    exact ⟨⟨heven, hdigits⟩, hmin, hmax⟩
  · rintro ⟨⟨heven, hdigits⟩, hmin, hmax⟩
    exact ⟨hdigits, heven, hmin, hmax⟩

theorem ofPayload_of_id_empty {p : Payload} (h : p.hashId = "") :
    ofPayload p = .error .emptyHashId := by
  rw [ofPayload, if_pos h]

theorem ofPayload_of_not_hex {p : Payload} (hid : p.hashId ≠ "") {cause : Hex.Error}
    (h : Hex.decode p.hash = .error cause) : ofPayload p = .error (.hex cause) := by
  rw [ofPayload, if_neg hid, h]

/-- Once the digits were read it is their number that decides. -/
theorem ofPayload_of_hex {p : Payload} (hid : p.hashId ≠ "") {hash : Bytes}
    (h : Hex.decode p.hash = .ok hash) :
    ofPayload p =
      if 40 ≤ p.hash.length ∧ p.hash.length ≤ 128 then
        .ok ⟨p.hashId, hash, p.hash, p.beaconTag.filter fun t => t ≠ ""⟩
      else .error (.hashLength (p.hash.length / 2)) := by
  have hlength := Hex.length_of_decode h
  have hhalf : hash.length = p.hash.length / 2 := by omega
  have hrange : (minHashLength ≤ hash.length ∧ hash.length ≤ maxHashLength) ↔
      40 ≤ p.hash.length ∧ p.hash.length ≤ 128 := by
    rw [minHashLength, maxHashLength]
    omega
  rw [ofPayload, if_neg hid, h]
  dsimp only
  rw [← hhalf]
  simp only [hrange]

/-! ### Taken payloads -/

/-- The payloads that are taken. -/
theorem ofPayload_isOk_iff (p : Payload) :
    (ofPayload p).isOk = true ↔ p.hashId ≠ "" ∧ IsHashText p.hash := by
  rw [isHashText_iff]
  by_cases hid : p.hashId = ""
  · rw [ofPayload_of_id_empty hid]
    exact iff_of_false Bool.false_ne_true fun h => h.1 hid
  · by_cases hhex : Hex.IsHex p.hash
    · obtain ⟨hash, hdecode, -, -⟩ := Hex.exists_decode hhex
      rw [ofPayload_of_hex hid hdecode]
      split
      · rename_i hrange
        exact iff_of_true rfl ⟨hid, hhex, hrange⟩
      · rename_i hrange
        exact iff_of_false Bool.false_ne_true fun h => hrange h.2.2
    · obtain ⟨cause, hdecode⟩ := Hex.exists_decode_error hhex
      rw [ofPayload_of_not_hex hid hdecode]
      exact iff_of_false Bool.false_ne_true fun h => hhex h.2.1

/-- What a submission has from its payload: the id and the text of the hash to the letter, the
bytes that the text stands for, and the beacon tag unless it is empty. -/
structure Keeps (p : Payload) (s : Submission) : Prop where
  hashId : s.hashId = p.hashId
  hashText : s.hashText = p.hash
  hash : Hex.encode s.hash = p.hash.toLower
  beaconTag : ∀ tag, s.beaconTag = some tag ↔ p.beaconTag = some tag ∧ tag ≠ ""

theorem keeps_of_ofPayload {p : Payload} {s : Submission} (h : ofPayload p = .ok s) :
    Keeps p s := by
  have htaken : p.hashId ≠ "" ∧ IsHashText p.hash := by
    rw [← ofPayload_isOk_iff, h]
    rfl
  obtain ⟨hid, htext⟩ := htaken
  obtain ⟨hhex, hrange⟩ := isHashText_iff.1 htext
  obtain ⟨hash, hdecode, -, hencode⟩ := Hex.exists_decode hhex
  rw [ofPayload_of_hex hid hdecode, if_pos hrange] at h
  cases h
  constructor
  case hashId => rfl
  case hashText => rfl
  case hash => exact hencode
  case beaconTag =>
    intro tag
    rw [Option.filter_eq_some_iff, decide_eq_true_iff]

/-! ### Refused payloads -/

/-- Why a payload is refused: a fault is told only where none of the earlier ones is there. -/
inductive Refuses (p : Payload) : Malformed → Prop where
  | id (h : p.hashId = "") : Refuses p .emptyHashId
  | digits {cause : Hex.Error} (hid : p.hashId ≠ "") (hhex : ¬ Hex.IsHex p.hash)
      (h : Hex.decode p.hash = .error cause) : Refuses p (.hex cause)
  | length (hid : p.hashId ≠ "") (hhex : Hex.IsHex p.hash)
      (h : ¬ (40 ≤ p.hash.length ∧ p.hash.length ≤ 128)) :
      Refuses p (.hashLength (p.hash.length / 2))

/-- The payloads that are refused, each for its reason. -/
theorem ofPayload_eq_error_iff (p : Payload) (e : Malformed) :
    ofPayload p = .error e ↔ Refuses p e := by
  constructor
  · intro h
    by_cases hid : p.hashId = ""
    · rw [ofPayload_of_id_empty hid] at h
      cases h
      exact .id hid
    · by_cases hhex : Hex.IsHex p.hash
      · obtain ⟨hash, hdecode, -, -⟩ := Hex.exists_decode hhex
        rw [ofPayload_of_hex hid hdecode] at h
        split at h
        · cases h
        · rename_i hrange
          cases h
          exact .length hid hhex hrange
      · obtain ⟨cause, hdecode⟩ := Hex.exists_decode_error hhex
        rw [ofPayload_of_not_hex hid hdecode] at h
        cases h
        exact .digits hid hhex hdecode
  · intro h
    cases h with
    | id h => exact ofPayload_of_id_empty h
    | digits hid hhex h => exact ofPayload_of_not_hex hid h
    | length hid hhex h =>
        obtain ⟨hash, hdecode, -, -⟩ := Hex.exists_decode hhex
        rw [ofPayload_of_hex hid hdecode, if_neg h]

/-! ### Written payloads -/

/-- The bytes that are written for a payload are dealt with as the payload. -/
theorem read_render (p : Payload) : read p.toJson.render = ofPayload p := by
  rw [read, Payload.decode?_render]

/-- The payload of given bytes, with their digits in lower case, is taken as just these bytes. -/
theorem ofPayload_encode {hashId : String} {hash : Bytes} {beaconTag : Option String}
    (hid : hashId ≠ "") (hmin : 20 ≤ hash.length) (hmax : hash.length ≤ 64)
    (htag : beaconTag ≠ some "") :
    ofPayload ⟨hashId, Hex.encode hash, beaconTag⟩ = .ok (ofBytes hashId hash beaconTag) := by
  have hkept : (beaconTag.filter fun t => t ≠ "") = beaconTag := by
    cases beaconTag with
    | none => rfl
    | some tag =>
        have hne : tag ≠ "" := fun h => htag (congrArg some h)
        exact if_pos (decide_eq_true hne)
  rw [ofPayload, if_neg hid, Hex.decode_encode]
  dsimp only
  rw [if_pos ⟨hmin, hmax⟩, hkept, ofBytes]

end Submission

/-- **Submissions are taken as they were sent.**  A payload is taken exactly if it has an id and a
hash of 40 to 128 hexadecimal digits in even number; what it holds is kept.  All other payloads are
refused for the first of their faults.  The bytes of a written payload are read as the payload is
taken, so that the payload of any id, hash and beacon tag, written in lower case, gives back these
three. -/
theorem submissions_taken_as_sent :
    (∀ p, (Submission.ofPayload p).isOk = true ↔ p.hashId ≠ "" ∧ Submission.IsHashText p.hash) ∧
    (∀ p s, Submission.ofPayload p = .ok s → Submission.Keeps p s) ∧
    (∀ p e, Submission.ofPayload p = .error e ↔ Submission.Refuses p e) ∧
    (∀ p : Submission.Payload, Submission.read p.toJson.render = Submission.ofPayload p) ∧
    ∀ (hashId : String) (hash : Bytes) (beaconTag : Option String),
      hashId ≠ "" → 20 ≤ hash.length → hash.length ≤ 64 → beaconTag ≠ some "" →
      Submission.read (Submission.Payload.mk hashId (Hex.encode hash) beaconTag).toJson.render =
        .ok (Submission.ofBytes hashId hash beaconTag) := by
  refine ⟨Submission.ofPayload_isOk_iff, fun _ _ => Submission.keeps_of_ofPayload,
    Submission.ofPayload_eq_error_iff, Submission.read_render, ?_⟩
  intro hashId hash beaconTag hid hmin hmax htag
  rw [Submission.read_render, Submission.ofPayload_encode hid hmin hmax htag]

/-- A hash in upper-case digits, with a beacon tag that is empty. -/
def upperCasePayload : Submission.Payload :=
  ⟨"\"é\"", "ABABABABABABABABABABABABABABABABABABABAB", some ""⟩

/-- Its text is kept, and so are the bytes that the text stands for. -/
theorem upper_case_taken_as_sent :
    (∃ s, Submission.ofPayload upperCasePayload = .ok s ∧
      s.hashText = "ABABABABABABABABABABABABABABABABABABABAB" ∧
      Hex.encode s.hash = "abababababababababababababababababababab" ∧ s.beaconTag = none) ∧
    "\"é\"" ≠ "" ∧ 20 ≤ (List.replicate 20 (0xab : UInt8)).length ∧
    (List.replicate 20 (0xab : UInt8)).length ≤ 64 ∧ (none : Option String) ≠ some "" ∧
    Submission.read (Submission.Payload.mk "\"é\"" (Hex.encode (List.replicate 20 0xab))
        none).toJson.render =
      .ok (Submission.ofBytes "\"é\"" (List.replicate 20 0xab) none) := by
  obtain ⟨htaken, hkeeps, -, -, hbytes⟩ := submissions_taken_as_sent
  have hall : (upperCasePayload.hash.toList.all fun c => decide (Hex.IsDigitChar c)) = true := by
    decide
  have hdigits : ∀ c ∈ upperCasePayload.hash.toList, Hex.IsDigitChar c :=
    fun c hc => of_decide_eq_true (List.all_eq_true.1 hall c hc)
  have hok : (Submission.ofPayload upperCasePayload).isOk = true :=
    (htaken upperCasePayload).2 ⟨by decide, ⟨hdigits, by decide, by decide, by decide⟩⟩
  have hlower : upperCasePayload.hash.toLower = "abababababababababababababababababababab" := by
    rw [← String.toList_inj, Hex.toList_toLower]
    decide
  refine ⟨?_, by decide, by decide, by decide, by decide,
    hbytes _ _ _ (by decide) (by decide) (by decide) (by decide)⟩
  cases hs : Submission.ofPayload upperCasePayload with
  | error e =>
      rw [hs] at hok
      cases hok
  | ok s =>
      have h := hkeeps _ _ hs
      refine ⟨s, rfl, h.hashText, h.hash.trans hlower, ?_⟩
      refine Option.eq_none_iff_forall_not_mem.2 ?_
      intro tag htag
      obtain ⟨hempty, hne⟩ := (h.beaconTag tag).1 htag
      exact hne (Option.some.inj hempty).symm

end HashCalendar
