/-
**Messages between the tiers are read back.**

Every part of a message has a written form that its own reader takes: digests and identifiers by
their digits, the elements of a proof by their single key, counts as far as they fit 64 bits.  A
message is a record of such parts, so the bytes that a tier publishes are read by the next one as
the message that was meant.

Main results:

* `HashCalendar.Uuid.ofText?_text` — an identifier is read from its hyphenated digits;
* `HashCalendar.AggregationState.decode?_render`, `HashCalendar.AggregateRoot.decode?_render`,
  `HashCalendar.CalendarState.decode?_render` — messages are read back from their bytes;
* `HashCalendar.messages_are_read_back` — **so is everything that travels between the tiers**.
-/

import HashCalendar.Proofs.Json.ReadBack
import HashCalendar.Wire.Message

set_option relaxedAutoImplicit false
set_option autoImplicit false

namespace HashCalendar

/-! ### Digests -/

@[simp] theorem Digest.ofHex_toHex (d : Digest) : Digest.ofHex d.toHex = .ok d := by
  simp [Digest.ofHex, Digest.toHex]

@[simp] theorem Digest.ofJson?_toJson (d : Digest) : Digest.ofJson? d.toJson = some d := by
  simp [Digest.ofJson?, Digest.toJson, Except.toOption]

theorem Digest.legible_toJson (d : Digest) : d.toJson.Legible := Json.legible_ofText _

/-! ### Identifiers -/

namespace Uuid

/-- The digits of an identifier, with hyphens between the groups. -/
theorem encode_text (u : Uuid) :
    Text.encode u.text =
      Text.encode (Hex.encode ((u.bytes.drop 0).take 4)) ++ [0x2d] ++
      Text.encode (Hex.encode ((u.bytes.drop 4).take 2)) ++ [0x2d] ++
      Text.encode (Hex.encode ((u.bytes.drop 6).take 2)) ++ [0x2d] ++
      Text.encode (Hex.encode ((u.bytes.drop 8).take 2)) ++ [0x2d] ++
      Text.encode (Hex.encode ((u.bytes.drop 10).take 6)) := by
  have hyphen : Text.encode (toString "-") = [0x2d] := rfl
  simp only [text, Text.encode_append, hyphen]
  rfl

/-- An identifier is read from its hyphenated digits. -/
@[simp] theorem ofText?_text (u : Uuid) : ofText? u.text = some u := by
  obtain ⟨bs, hbs⟩ := u
  -- sixteen bytes in a row, so that every group of digits is an explicit list
  match bs, hbs with
  | [b0, b1, b2, b3, b4, b5, b6, b7, b8, b9, b10, b11, b12, b13, b14, b15], hbs =>
      have htext := encode_text ⟨_, hbs⟩
      simp only [Hex.encode_encode] at htext
      have hread := Hex.decodePairs_flatMap 0
        [b0, b1, b2, b3, b4, b5, b6, b7, b8, b9, b10, b11, b12, b13, b14, b15]
      simp only [ofText?, htext]
      simp only [List.flatMap_cons, List.flatMap_nil, List.cons_append, List.nil_append,
        List.append_nil] at hread
      simp [ofGroups?, ofDigits?, Hex.decodeBytes, hread]

@[simp] theorem ofJson?_toJson (u : Uuid) : Uuid.ofJson? u.toJson = some u := by
  simp [Uuid.ofJson?, Uuid.toJson]

theorem legible_toJson (u : Uuid) : u.toJson.Legible := Json.legible_ofText _

end Uuid

/-! ### Elements of a proof -/

namespace Op

@[simp] theorem ofJson?_toJson (op : Op) : Op.ofJson? op.toJson = some op := by
  cases op <;> simp [Op.ofJson?, Op.toJson]

theorem legible_toJson (op : Op) : op.toJson.Legible := by
  cases op <;> exact Json.legible_ofMembers (by simp [Json.legible_ofText])

@[simp] theorem listOfJson?_listToJson (ops : List Op) :
    Op.listOfJson? (Op.listToJson ops) = some ops :=
  Json.listOf?_array ofJson?_toJson ops

theorem legible_listToJson (ops : List Op) : (Op.listToJson ops).Legible :=
  Json.legible_array legible_toJson ops

end Op

/-- A legible document is decoded as its content is read. -/
theorem Json.decode?_render {α : Type} {content? : Json → Option α} {document : Json} {a : α}
    (hlegible : document.Legible) (h : content? document = some a) :
    Json.decode? content? document.render = some a := by
  rw [Json.decode?, Json.read?_render hlegible, Option.bind_some, h]

/-- A proof is read back. -/
theorem Op.decode?_render (ops : List Op) :
    Json.decode? Op.listOfJson? (Op.listToJson ops).render = some ops :=
  Json.decode?_render (legible_listToJson ops) (listOfJson?_listToJson ops)

/-! ### Submissions -/

namespace Submission.Payload

theorem legible_toJson (p : Payload) : p.toJson.Legible := by
  refine Json.legible_ofMembers ?_
  intro m hm
  rcases List.mem_append.1 hm with hm | hm
  · simp only [List.mem_cons, List.not_mem_nil, or_false] at hm
    rcases hm with rfl | rfl
    · exact Json.legible_ofText p.hashId
    · exact Json.legible_ofText p.hash
  · rw [Option.mem_toList, Option.map_eq_some_iff] at hm
    obtain ⟨tag, -, rfl⟩ := hm
    exact Json.legible_ofText tag

/-- A beacon tag that was left out is absent again, and one that was written, even an empty one, is
read. -/
@[simp] theorem ofJson?_toJson (p : Payload) : Payload.ofJson? p.toJson = some p := by
  obtain ⟨hashId, hash, beaconTag⟩ := p
  cases beaconTag with
  | none =>
      rw [Payload.ofJson?, toJson, Json.record?_ofMembers (by simp) rfl]
      simp [Json.field?, Json.fieldOr?, List.lookup_cons]
  | some tag =>
      -- The text of a tag is a string, so it is not taken for null.
      have htag : Json.optionOf? Json.textOf? (Json.ofText tag) = some (some tag) := by
        rw [Json.ofText, Json.optionOf?, ← Json.ofText, Json.textOf?_ofText, Option.map_some]
        exact nofun
      rw [Payload.ofJson?, toJson, Json.record?_ofMembers (by simp) rfl]
      simp [Json.field?, Json.fieldOr?, List.lookup_cons, htag]

/-- A submission as it is sent is read back. -/
theorem decode?_render (p : Payload) : Json.decode? Payload.ofJson? p.toJson.render = some p :=
  Json.decode?_render p.legible_toJson p.ofJson?_toJson

end Submission.Payload

/-- A record of other members is no submission. -/
theorem Submission.read_of_foreign {members : List (String × Json)}
    (hlegible : (Json.ofMembers members).Legible)
    (hnames : ∀ m ∈ members, ["hash_id", "hash", "nist"].contains m.1 = false) :
    Submission.read (Json.ofMembers members).render = .error .document := by
  have hnone : Payload.ofJson? (Json.ofMembers members) = none := by
    rw [Payload.ofJson?, Json.record?_of_foreign hnames]
    rfl
  rw [Submission.read, Json.decode?, Json.read?_render hlegible, Option.bind_some, hnone]

/-! ### Messages of the aggregation tier -/

namespace AggregationState

theorem legible_toJson (m : AggregationState) : m.toJson.Legible := by
  refine Json.legible_ofMembers ?_
  simp [Json.legible_ofText, Uuid.legible_toJson, Json.legible_ofMembers, Op.legible_listToJson]

@[simp] theorem opsOfJson?_ofMembers (ops : List Op) :
    opsOfJson? (.ofMembers [("ops", Op.listToJson ops)]) = some ops := by
  rw [opsOfJson?, Json.record?_ofMembers (by simp) rfl]
  simp [Json.field?]

@[simp] theorem ofJson?_toJson (m : AggregationState) :
    AggregationState.ofJson? m.toJson = some m := by
  rw [AggregationState.ofJson?, toJson, Json.record?_ofMembers (by simp) rfl]
  simp [Json.field?, List.lookup_cons]

/-- The state of a proof is read back. -/
theorem decode?_render (m : AggregationState) :
    Json.decode? AggregationState.ofJson? m.toJson.render = some m :=
  Json.decode?_render m.legible_toJson m.ofJson?_toJson

end AggregationState

namespace AggregateRoot

theorem legible_toJson (m : AggregateRoot) : m.toJson.Legible := by
  refine Json.legible_ofMembers ?_
  simp [Uuid.legible_toJson, Digest.legible_toJson, Json.legible_ofNat]

theorem ofJson?_toJson {m : AggregateRoot} (h : m.hashCount < UInt64.size) :
    AggregateRoot.ofJson? m.toJson = some m := by
  rw [AggregateRoot.ofJson?, toJson, Json.record?_ofMembers (by simp) rfl]
  simp [Json.field?, List.lookup_cons, Json.countOf?_ofNat h]

/-- An aggregate root over a count of 64 bits is read back. -/
theorem decode?_render {m : AggregateRoot} (h : m.hashCount < UInt64.size) :
    Json.decode? AggregateRoot.ofJson? m.toJson.render = some m :=
  Json.decode?_render m.legible_toJson (ofJson?_toJson h)

end AggregateRoot

/-! ### Messages of the calendar tier -/

namespace AnchorReference

theorem legible_toJson (m : AnchorReference) : m.toJson.Legible := by
  refine Json.legible_ofMembers ?_
  simp [Json.legible_ofText, Json.legible_array Json.legible_ofText]

@[simp] theorem ofJson?_toJson (m : AnchorReference) :
    AnchorReference.ofJson? m.toJson = some m := by
  rw [AnchorReference.ofJson?, toJson, Json.record?_ofMembers (by simp) rfl]
  simp [Json.field?, List.lookup_cons, Json.listOf?_array Json.textOf?_ofText]

/-- A reference to a calendar entry is read back. -/
theorem decode?_render (m : AnchorReference) :
    Json.decode? AnchorReference.ofJson? m.toJson.render = some m :=
  Json.decode?_render m.legible_toJson m.ofJson?_toJson

end AnchorReference

namespace CalendarState

theorem legible_toJson (m : CalendarState) : m.toJson.Legible := by
  refine Json.legible_ofMembers ?_
  simp [Uuid.legible_toJson, Digest.legible_toJson, Json.legible_ofNat, Json.legible_ofMembers,
    Op.legible_listToJson, AnchorReference.legible_toJson]

@[simp] theorem stateOfJson?_ofMembers (ops : List Op) (anchor : AnchorReference) :
    stateOfJson? (.ofMembers [("ops", Op.listToJson ops), ("anchor", anchor.toJson)]) =
      some (ops, anchor) := by
  rw [stateOfJson?, Json.record?_ofMembers (by simp) rfl]
  simp [Json.field?, List.lookup_cons]

theorem ofJson?_toJson {m : CalendarState} (h : m.root.hashCount < UInt64.size) :
    CalendarState.ofJson? m.toJson = some m := by
  rw [CalendarState.ofJson?, toJson, Json.record?_ofMembers (by simp) rfl]
  simp [Json.field?, List.lookup_cons, Json.countOf?_ofNat h]

/-- The state of a proof is no submission. -/
theorem read_submission (m : CalendarState) :
    Submission.read m.toJson.render = .error .document :=
  Submission.read_of_foreign m.legible_toJson (by simp)

/-- The state of a proof above an aggregate root is read back. -/
theorem decode?_render {m : CalendarState} (h : m.root.hashCount < UInt64.size) :
    Json.decode? CalendarState.ofJson? m.toJson.render = some m :=
  Json.decode?_render m.legible_toJson (ofJson?_toJson h)

end CalendarState

namespace AnchorRequest

theorem legible_toJson (m : AnchorRequest) : m.toJson.Legible := by
  refine Json.legible_ofMembers ?_
  simp [Uuid.legible_toJson, Digest.legible_toJson, Json.legible_ofNat]

theorem ofJson?_toJson {m : AnchorRequest} (h : m.blockCount < UInt64.size) :
    AnchorRequest.ofJson? m.toJson = some m := by
  rw [AnchorRequest.ofJson?, toJson, Json.record?_ofMembers (by simp) rfl]
  simp [Json.field?, List.lookup_cons, Json.countOf?_ofNat h]

/-- A request is no submission. -/
theorem read_submission (m : AnchorRequest) :
    Submission.read m.toJson.render = .error .document :=
  Submission.read_of_foreign m.legible_toJson (by simp)

/-- A request to anchor a root is read back. -/
theorem decode?_render {m : AnchorRequest} (h : m.blockCount < UInt64.size) :
    Json.decode? AnchorRequest.ofJson? m.toJson.render = some m :=
  Json.decode?_render m.legible_toJson (ofJson?_toJson h)

end AnchorRequest

/-! ### All that travels -/

/-- **What is sent is what is read.**  The bytes that are written for a submission, for any message
between the tiers or for a proof are read as just that: whatever characters the texts hold, whether
or not a submission has a beacon tag, and for all counts of 64 bits. -/
theorem messages_are_read_back :
    (∀ p : Submission.Payload,
      Json.decode? Submission.Payload.ofJson? p.toJson.render = some p) ∧
    (∀ m : AggregationState, Json.decode? AggregationState.ofJson? m.toJson.render = some m) ∧
    (∀ m : AggregateRoot, m.hashCount < UInt64.size →
      Json.decode? AggregateRoot.ofJson? m.toJson.render = some m) ∧
    (∀ m : CalendarState, m.root.hashCount < UInt64.size →
      Json.decode? CalendarState.ofJson? m.toJson.render = some m) ∧
    (∀ m : AnchorRequest, m.blockCount < UInt64.size →
      Json.decode? AnchorRequest.ofJson? m.toJson.render = some m) ∧
    (∀ m : AnchorReference, Json.decode? AnchorReference.ofJson? m.toJson.render = some m) ∧
    (∀ ops : List Op, Json.decode? Op.listOfJson? (Op.listToJson ops).render = some ops) :=
  ⟨Submission.Payload.decode?_render, AggregationState.decode?_render,
    fun _ => AggregateRoot.decode?_render, fun _ => CalendarState.decode?_render,
    fun _ => AnchorRequest.decode?_render, AnchorReference.decode?_render, Op.decode?_render⟩

/-- An aggregate root with the largest count there is. -/
def largestRoot : AggregateRoot where
  aggId := ⟨List.replicate 16 0, rfl⟩
  aggRoot := ⟨List.replicate 32 0, List.length_replicate⟩
  hashCount := UInt64.size - 1

/-- A proof of characters that have to be escaped, and a count of the largest size, are read
back. -/
theorem quotes_and_largest_count_are_read_back :
    Json.decode? Op.listOfJson? (Op.listToJson [.left "\"\\\n\x07", .function "sha-256"]).render =
      some [.left "\"\\\n\x07", .function "sha-256"] ∧
    largestRoot.hashCount < UInt64.size ∧
    Json.decode? AggregateRoot.ofJson? largestRoot.toJson.render = some largestRoot := by
  obtain ⟨-, -, hroot, -, -, -, hops⟩ := messages_are_read_back
  exact ⟨hops _, by decide, hroot largestRoot (by decide)⟩

end HashCalendar
