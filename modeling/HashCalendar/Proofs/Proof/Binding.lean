/-
**What the digest of a leaf binds.**

A leaf is hashed as the mark of ids, the id and the hash in a row, and then, if there is a beacon
tag, as the mark of beacons, the tag and the digest of the first hash.  Nothing tells where the id
ends.  So leaves with the same digest, unless their computations collide, have the same beacon tag
and the same bytes of id and hash in a row, but the id of one of them may go on with the bytes that
the hash of the other begins with.  Between hashes of one length there is no such choice.

Main definitions:

* `HashCalendar.Leaf.hashed` — the byte strings that are hashed for a leaf;
* `HashCalendar.HashFunction.Collides` — two different strings among given ones have one digest;
* `HashCalendar.Leaf.IsSubmitted` — leaves of submissions;
* `HashCalendar.Leaf.SplitsLater` — the same bytes, with some of the hash in the id.

Main results:

* `HashCalendar.Leaf.binds_or_collides` — a digest binds the tag and the bytes in a row;
* `HashCalendar.Leaf.digest_eq_of_splitsLater` — where the id ends is not bound;
* `HashCalendar.leaves_bind_up_to_the_split` — **equal digests are of leaves that agree up to the
  end of the id, or of a collision**.
-/

import HashCalendar.Leaf
import HashCalendar.Wire.Submission

set_option relaxedAutoImplicit false
set_option autoImplicit false

namespace HashCalendar

/-- Two different byte strings, one of each list, have the same digest. -/
def HashFunction.Collides (f : HashFunction) (xs ys : List Bytes) : Prop :=
  ∃ x ∈ xs, ∃ y ∈ ys, x ≠ y ∧ f.apply x = f.apply y

/-- Strings with the same digest are the same or collide. -/
theorem HashFunction.eq_or_collides {f : HashFunction} {xs ys : List Bytes} {x y : Bytes}
    (hx : x ∈ xs) (hy : y ∈ ys) (h : f.apply x = f.apply y) : x = y ∨ f.Collides xs ys := by
  by_cases heq : x = y
  · exact Or.inl heq
  · exact Or.inr ⟨x, hx, y, hy, heq, h⟩

namespace Leaf

/-! ### What is hashed -/

/-- The bytes that bind an id. -/
def idBytes (leaf : Leaf) : Bytes :=
  Text.encode idMark ++ (Text.encode leaf.hashId ++ leaf.hash)

/-- The bytes that bind a beacon tag over a digest. -/
def beaconBytes (tag : String) (bound : Digest) : Bytes :=
  Text.encode beaconMark ++ (Text.encode tag ++ bound.bytes)

/-- The byte strings that are hashed for a leaf. -/
def hashed (f : HashFunction) (leaf : Leaf) : List Bytes :=
  leaf.idBytes ::
    (leaf.beaconTag.map fun tag => beaconBytes tag (f.apply leaf.idBytes)).toList

theorem digest_of_none {leaf : Leaf} (h : leaf.beaconTag = none) (f : HashFunction) :
    leaf.digest f = f.apply leaf.idBytes := by
  simp [digest, h, idBytes, HashFunction.digest]

theorem digest_of_some {leaf : Leaf} {tag : String} (h : leaf.beaconTag = some tag)
    (f : HashFunction) :
    leaf.digest f = f.apply (beaconBytes tag (f.apply leaf.idBytes)) := by
  simp [digest, h, idBytes, beaconBytes, HashFunction.digest]

theorem idBytes_eq_iff {leaf leaf' : Leaf} : leaf.idBytes = leaf'.idBytes ↔
    Text.encode leaf.hashId ++ leaf.hash = Text.encode leaf'.hashId ++ leaf'.hash :=
  List.append_right_inj _

/-- A digest has 32 bytes, so it is clear where the tag before it ends. -/
theorem beaconBytes_inj {tag tag' : String} {bound bound' : Digest}
    (h : beaconBytes tag bound = beaconBytes tag' bound') : tag = tag' ∧ bound = bound' := by
  have hlength : bound.bytes.length = bound'.bytes.length :=
    bound.length_eq.trans bound'.length_eq.symm
  obtain ⟨htag, hbytes⟩ := List.append_inj' ((List.append_right_inj _).1 h) hlength
  exact ⟨Text.encode_injective htag, Digest.ext hbytes⟩

/-- The marks differ in their first byte. -/
theorem idBytes_ne_beaconBytes (leaf : Leaf) (tag : String) (bound : Digest) :
    leaf.idBytes ≠ beaconBytes tag bound := by
  intro h
  have hid : leaf.idBytes.head? = some 0x63 := rfl
  have hbeacon : (beaconBytes tag bound).head? = some 0x6e := rfl
  rw [h, hbeacon] at hid
  cases hid

theorem idBytes_mem_hashed (f : HashFunction) (leaf : Leaf) : leaf.idBytes ∈ leaf.hashed f :=
  List.mem_cons_self

theorem beaconBytes_mem_hashed (f : HashFunction) {leaf : Leaf} {tag : String}
    (h : leaf.beaconTag = some tag) :
    beaconBytes tag (f.apply leaf.idBytes) ∈ leaf.hashed f := by
  rw [hashed, h]
  exact List.mem_cons_of_mem _ List.mem_cons_self

/-- The digest of a leaf binds the beacon tag and, in a row, the id and the hash. -/
theorem binds_or_collides {f : HashFunction} {leaf leaf' : Leaf}
    (h : leaf.digest f = leaf'.digest f) :
    (leaf.beaconTag = leaf'.beaconTag ∧ leaf.idBytes = leaf'.idBytes) ∨
      f.Collides (leaf.hashed f) (leaf'.hashed f) := by
  have hid := leaf.idBytes_mem_hashed f
  have hid' := leaf'.idBytes_mem_hashed f
  cases htag : leaf.beaconTag with
  | none =>
      rw [digest_of_none htag] at h
      cases htag' : leaf'.beaconTag with
      | none =>
          rw [digest_of_none htag'] at h
          rcases HashFunction.eq_or_collides hid hid' h with heq | hc
          · exact Or.inl ⟨rfl, heq⟩
          · exact Or.inr hc
      | some tag' =>
          rw [digest_of_some htag'] at h
          exact Or.inr ⟨_, hid, _, beaconBytes_mem_hashed f htag', idBytes_ne_beaconBytes _ _ _, h⟩
  | some tag =>
      have hbeacon := beaconBytes_mem_hashed f htag
      rw [digest_of_some htag] at h
      cases htag' : leaf'.beaconTag with
      | none =>
          rw [digest_of_none htag'] at h
          exact Or.inr ⟨_, hbeacon, _, hid', (idBytes_ne_beaconBytes _ _ _).symm, h⟩
      | some tag' =>
          rw [digest_of_some htag'] at h
          -- The outer strings give the tags and the inner digests, and these the inner strings.
          rcases HashFunction.eq_or_collides hbeacon (beaconBytes_mem_hashed f htag') h with
            houter | hc
          · obtain ⟨rfl, hbound⟩ := beaconBytes_inj houter
            rcases HashFunction.eq_or_collides hid hid' hbound with heq | hc
            · exact Or.inl ⟨rfl, heq⟩
            · exact Or.inr hc
          · exact Or.inr hc

/-- What a digest binds is all that it depends on. -/
theorem digest_congr {leaf leaf' : Leaf} (htag : leaf.beaconTag = leaf'.beaconTag)
    (hbytes : leaf.idBytes = leaf'.idBytes) (f : HashFunction) :
    leaf.digest f = leaf'.digest f := by
  cases htag' : leaf'.beaconTag with
  | none => rw [digest_of_none (htag.trans htag'), digest_of_none htag', hbytes]
  | some tag => rw [digest_of_some (htag.trans htag'), digest_of_some htag', hbytes]

/-! ### Leaves of submissions -/

/-- Leaves with the id and the hash of a submission, under whichever beacon tag. -/
def IsSubmitted (leaf : Leaf) : Prop :=
  ∃ payload submission, Submission.ofPayload payload = .ok submission ∧
    leaf.hashId = submission.hashId ∧ leaf.hash = submission.hash

/-- They have an id and a hash of the permitted length. -/
theorem isSubmitted_iff {leaf : Leaf} : leaf.IsSubmitted ↔
    leaf.hashId ≠ "" ∧ Submission.minHashLength ≤ leaf.hash.length ∧
      leaf.hash.length ≤ Submission.maxHashLength := by
  constructor
  · rintro ⟨payload, submission, h, hid, hhash⟩
    rw [hid, hhash]
    rw [Submission.ofPayload] at h
    split at h
    · cases h
    · rename_i hne
      split at h
      · cases h
      · split at h
        · rename_i hlength
          cases h
          exact ⟨hne, hlength⟩
        · cases h
  · rintro ⟨hne, hlength⟩
    refine ⟨⟨leaf.hashId, Hex.encode leaf.hash, none⟩,
      ⟨leaf.hashId, leaf.hash, Hex.encode leaf.hash, none⟩, ?_, rfl, rfl⟩
    rw [Submission.ofPayload, if_neg hne, Hex.decode_encode]
    exact if_pos hlength

/-- The same bytes in a row, but with the first bytes of one hash at the end of the other id. -/
def SplitsLater (leaf leaf' : Leaf) : Prop :=
  ∃ shifted : Bytes, shifted.length ≤ Submission.maxHashLength - Submission.minHashLength ∧
    Text.encode leaf'.hashId = Text.encode leaf.hashId ++ shifted ∧
    leaf.hash = shifted ++ leaf'.hash

/-- Hashes of one length have the same end of the id before them. -/
theorem SplitsLater.eq_of_length_eq {leaf leaf' : Leaf} (h : leaf.SplitsLater leaf')
    (hlength : leaf.hash.length = leaf'.hash.length) :
    leaf.hashId = leaf'.hashId ∧ leaf.hash = leaf'.hash := by
  obtain ⟨shifted, -, hid, hhash⟩ := h
  have hnil : shifted = [] := by
    rw [hhash, List.length_append] at hlength
    exact List.eq_nil_of_length_eq_zero (by omega)
  rw [hnil] at hid hhash
  rw [List.append_nil] at hid
  exact ⟨(Text.encode_injective hid).symm, hhash⟩

/-- Where the id ends is not bound. -/
theorem digest_eq_of_splitsLater {leaf leaf' : Leaf} (h : leaf.SplitsLater leaf')
    (htag : leaf.beaconTag = leaf'.beaconTag) (f : HashFunction) :
    leaf.digest f = leaf'.digest f := by
  obtain ⟨shifted, -, hid, hhash⟩ := h
  refine digest_congr htag ?_ f
  rw [idBytes_eq_iff, hid, hhash, List.append_assoc]

/-- Leaves of submissions with the same bytes in a row differ in where the id ends only. -/
theorem splitsLater_or_splitsLater {leaf leaf' : Leaf} (h : leaf.IsSubmitted)
    (h' : leaf'.IsSubmitted) (hbytes : leaf.idBytes = leaf'.idBytes) :
    leaf.SplitsLater leaf' ∨ leaf'.SplitsLater leaf := by
  obtain ⟨-, hmin, hmax⟩ := isSubmitted_iff.1 h
  obtain ⟨-, hmin', hmax'⟩ := isSubmitted_iff.1 h'
  rcases List.append_eq_append_iff.1 (idBytes_eq_iff.1 hbytes) with
    ⟨shifted, hid, hhash⟩ | ⟨shifted, hid, hhash⟩
  · refine Or.inl ⟨shifted, ?_, hid, hhash⟩
    have := congrArg List.length hhash
    rw [List.length_append] at this
    omega
  · refine Or.inr ⟨shifted, ?_, hid, hhash⟩
    have := congrArg List.length hhash
    rw [List.length_append] at this
    omega

end Leaf

/-- **Equal digests are of leaves that agree up to the end of the id, or of a collision.**  If two
leaves of submissions have the same digest, then they have the same beacon tag, and the same id and
hash but for bytes that the one has at the beginning of its hash and the other at the end of its id;
of these there are none if the hashes have one length.  Otherwise two different byte strings among
those that were hashed have the same digest. -/
theorem leaves_bind_up_to_the_split (f : HashFunction) {leaf leaf' : Leaf}
    (hsubmitted : leaf.IsSubmitted) (hsubmitted' : leaf'.IsSubmitted)
    (h : leaf.digest f = leaf'.digest f) :
    (leaf.beaconTag = leaf'.beaconTag ∧ (leaf.SplitsLater leaf' ∨ leaf'.SplitsLater leaf) ∧
      (leaf.hash.length = leaf'.hash.length → leaf = leaf')) ∨
    f.Collides (leaf.hashed f) (leaf'.hashed f) := by
  rcases Leaf.binds_or_collides h with ⟨htag, hbytes⟩ | hc
  · refine Or.inl ⟨htag, ?_⟩
    have hsplit := Leaf.splitsLater_or_splitsLater hsubmitted hsubmitted' hbytes
    refine ⟨hsplit, ?_⟩
    intro hlength
    obtain ⟨hashId, hash, beaconTag⟩ := leaf
    obtain ⟨hashId', hash', beaconTag'⟩ := leaf'
    obtain rfl : beaconTag = beaconTag' := htag
    rcases hsplit with hsplit | hsplit
    · obtain ⟨rfl, rfl⟩ := hsplit.eq_of_length_eq hlength
      rfl
    · obtain ⟨rfl, rfl⟩ := hsplit.eq_of_length_eq hlength.symm
      rfl
  · exact Or.inr hc

/-- The id `a`, and a hash of the letter `b` and twenty zero bytes. -/
def shortIdLeaf : Leaf := ⟨"a", 0x62 :: List.replicate 20 0, none⟩

/-- The id `ab`, and a hash of twenty zero bytes. -/
def longIdLeaf : Leaf := ⟨"ab", List.replicate 20 0, none⟩

theorem isSubmitted_shortIdLeaf : shortIdLeaf.IsSubmitted := Leaf.isSubmitted_iff.2 (by decide)

theorem isSubmitted_longIdLeaf : longIdLeaf.IsSubmitted := Leaf.isSubmitted_iff.2 (by decide)

/-- The letter `b` ends the one id and begins the other hash. -/
theorem splitsLater_shortIdLeaf : shortIdLeaf.SplitsLater longIdLeaf :=
  ⟨[0x62], by decide, by decide, by decide⟩

/-- Two submissions with different ids and hashes whose leaves have the same digest, without any
collision: the bytes that are hashed for them are the same. -/
theorem distinct_submissions_share_a_leaf_digest :
    shortIdLeaf.IsSubmitted ∧ longIdLeaf.IsSubmitted ∧
    shortIdLeaf.digest .sha256 = longIdLeaf.digest .sha256 ∧
    shortIdLeaf.hashId ≠ longIdLeaf.hashId ∧ shortIdLeaf.hash ≠ longIdLeaf.hash ∧
    ¬ HashFunction.Collides .sha256 (shortIdLeaf.hashed .sha256) (longIdLeaf.hashed .sha256) := by
  refine ⟨isSubmitted_shortIdLeaf, isSubmitted_longIdLeaf,
    Leaf.digest_eq_of_splitsLater splitsLater_shortIdLeaf rfl _, by decide, by decide, ?_⟩
  rintro ⟨x, hx, y, hy, hne, -⟩
  have hsame : longIdLeaf.idBytes = shortIdLeaf.idBytes := by decide
  obtain rfl : x = shortIdLeaf.idBytes := List.mem_singleton.1 hx
  obtain rfl : y = longIdLeaf.idBytes := List.mem_singleton.1 hy
  exact hne hsame.symm

/-- These two leaves agree up to the end of the id. -/
theorem short_and_long_id_agree_up_to_the_split :
    shortIdLeaf.IsSubmitted ∧ longIdLeaf.IsSubmitted ∧
    shortIdLeaf.digest .sha256 = longIdLeaf.digest .sha256 ∧
    ((shortIdLeaf.beaconTag = longIdLeaf.beaconTag ∧
      (shortIdLeaf.SplitsLater longIdLeaf ∨ longIdLeaf.SplitsLater shortIdLeaf) ∧
      (shortIdLeaf.hash.length = longIdLeaf.hash.length → shortIdLeaf = longIdLeaf)) ∨
    HashFunction.Collides .sha256 (shortIdLeaf.hashed .sha256) (longIdLeaf.hashed .sha256)) := by
  have hdigest : shortIdLeaf.digest .sha256 = longIdLeaf.digest .sha256 :=
    Leaf.digest_eq_of_splitsLater splitsLater_shortIdLeaf rfl _
  exact ⟨isSubmitted_shortIdLeaf, isSubmitted_longIdLeaf, hdigest,
    leaves_bind_up_to_the_split .sha256 isSubmitted_shortIdLeaf isSubmitted_longIdLeaf hdigest⟩

end HashCalendar
