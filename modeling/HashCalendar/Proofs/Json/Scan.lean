/-
**Written tokens are scanned back.**

The scan of a document reads byte by byte, and a numeral ends only where a byte comes that it cannot
hold.  So after the bytes of a token the scan has either found it or, for a numeral, will find it
with whatever comes next; both are the same to what follows, unless what follows is a numeral
itself.  A document puts a bracket, a comma or a colon between any two of its values, so its tokens
are found again in their order.

Main definitions:

* `HashCalendar.Json.Numeral.Legible` — numerals that their own bytes are read as;
* `HashCalendar.Json.Legible` — documents of legible numerals and escaped strings;
* `HashCalendar.Json.Scan.Reached` — a scan that has found given tokens, the last one first.

Main results:

* `HashCalendar.Json.Numeral.legible_ofNat` — the numeral of a natural number is legible;
* `HashCalendar.Json.scan?_render` — **the tokens of a legible document are scanned back**.
-/

import HashCalendar.Json.Tree

set_option relaxedAutoImplicit false
set_option autoImplicit false

namespace HashCalendar.Json

/-! ### Numerals -/

namespace Numeral

/-- Numerals whose bytes are read as they were meant. -/
structure Legible (n : Numeral) : Prop where
  isNumeric : ∀ b ∈ n.bytes, Scan.isNumeric b = true
  ofBytes?_bytes : ofBytes? n.bytes = some n

theorem Legible.bytes_ne_nil {n : Numeral} (h : n.Legible) : n.bytes ≠ [] := by
  intro hnil
  have := h.ofBytes?_bytes
  rw [hnil] at this
  cases this

/-- Digits are read up to their end. -/
theorem spanDigits_map_byte (ds : List Nat) (h : ∀ d ∈ ds, d < 10) :
    spanDigits (ds.map Decimal.byte) = (ds, []) := by
  induction ds with
  | nil => rfl
  | cons d ds ih =>
      have hd : Decimal.ofByte? (Decimal.byte d) = some d :=
        Decimal.ofByte?_byte (h d List.mem_cons_self)
      have hds := ih fun e he => h e (List.mem_cons_of_mem d he)
      simp only [List.map_cons, spanDigits, hd, hds]

/-- Only zero is written with a zero in front. -/
theorem head?_digits (n : Nat) (h : (Decimal.digits n).head? = some 0) :
    Decimal.digits n = [0] := by
  fun_induction Decimal.digits n with
  | case1 n hn => simpa using h
  | case2 n hn ih =>
      -- A leading zero would be the first digit of `n / 10` already, which is not zero.
      have hhead : (Decimal.digits (n / 10)).head? = some 0 := by
        cases hds : Decimal.digits (n / 10) with
        | nil => exact absurd hds (Decimal.digits_ne_nil _)
        | cons d ds => simpa [hds] using h
      have hzero : n / 10 = 0 := by
        have hvalue := congrArg Decimal.value (ih hhead)
        rwa [Decimal.value_digits] at hvalue
      omega

@[simp] theorem bytes_ofNat (n : Nat) : (ofNat n).bytes = (Decimal.digits n).map Decimal.byte := by
  simp [ofNat, bytes]

/-- No digit is a minus sign. -/
theorem byte_ne_minus {d : Nat} (h : d < 10) : Decimal.byte d ≠ 45 := by
  intro he
  have := Decimal.ofByte?_byte h
  rw [he] at this
  cases this

/-- The numeral of a natural number is read as it was meant. -/
theorem legible_ofNat (n : Nat) : (ofNat n).Legible where
  isNumeric b hb := by
    obtain ⟨d, hd, rfl⟩ := List.mem_map.1 (bytes_ofNat n ▸ hb)
    simp [Scan.isNumeric, Decimal.ofByte?_byte (Decimal.lt_ten_of_mem_digits hd)]
  ofBytes?_bytes := by
    have hlt : ∀ d ∈ Decimal.digits n, d < 10 := fun d hd => Decimal.lt_ten_of_mem_digits hd
    have hne : Decimal.digits n ≠ [] := Decimal.digits_ne_nil n
    have hspan := spanDigits_map_byte _ hlt
    have hhead := head?_digits n
    rw [bytes_ofNat, ofNat]
    generalize Decimal.digits n = ds at hlt hne hspan hhead
    cases ds with
    | nil => exact absurd rfl hne
    | cons d ds =>
        have hminus := byte_ne_minus (hlt d List.mem_cons_self)
        have hzero : ¬ (d = 0 ∧ ds ≠ []) := by
          rintro ⟨rfl, hds⟩
          exact hds (List.cons.inj (hhead rfl)).2
        simp only [List.map_cons] at hspan ⊢
        unfold ofBytes?
        split
        rename_i heq
        split at heq
        · rename_i hcons
          exact absurd (List.cons.inj hcons).1 hminus
        · obtain ⟨rfl, rfl⟩ := Prod.mk.inj heq
          simp [hspan, exponentOf?]
          intro h0
          exact ⟨h0, Classical.byContradiction fun hds => hzero ⟨h0, hds⟩⟩

end Numeral

/-- Documents whose numerals are legible and whose strings were escaped. -/
inductive Legible : Json → Prop
  | null : Legible .null
  | bool (b : Bool) : Legible (.bool b)
  | number {n : Numeral} : n.Legible → Legible (.number n)
  | string (bs : Bytes) : Legible (.string (escape bs))
  | array {items : List Json} : (∀ item ∈ items, Legible item) → Legible (.array items)
  | object {members : List (Bytes × Json)} : (∀ m ∈ members, ∃ bs, m.1 = escape bs) →
      (∀ m ∈ members, Legible m.2) → Legible (.object members)

namespace Scan

/-- The state after more bytes. -/
def run (s : State) (bs : Bytes) : Option State := bs.foldlM step s

theorem run_cons (s : State) (b : UInt8) (bs : Bytes) :
    run s (b :: bs) = (step s b).bind fun s' => run s' bs := rfl

theorem run_append (s : State) (bs cs : Bytes) :
    run s (bs ++ cs) = (run s bs).bind fun s' => run s' cs :=
  List.foldlM_append

/-- A scan that has found tokens, or will have found them with whatever byte comes next, if it can
be no part of a numeral. -/
inductive Reached : State → List Token → Prop
  | between (found : List Token) : Reached ⟨.between, found⟩ found
  | number {read : Bytes} {n : Numeral} (found : List Token) :
      Numeral.ofBytes? read.reverse = some n → Reached ⟨.number read, found⟩ (.number n :: found)

/-- A byte that no numeral holds starts the next token. -/
theorem Reached.step_eq {s : State} {found : List Token} (h : Reached s found) {b : UInt8}
    (hb : isNumeric b = false) : step s b = start found b := by
  cases h with
  | between => rfl
  | number found hn => simp [step, hb, hn]

theorem Reached.finish_eq {s : State} {found : List Token} (h : Reached s found) :
    finish s = some found := by
  cases h with
  | between => rfl
  | number found hn => simp [finish, hn]

/-! ### Strings -/

/-- A byte inside a string is passed over as it was escaped. -/
theorem run_escapeByte (b : UInt8) (read : Bytes) (found : List Token) :
    run ⟨.string read .none, found⟩ (escapeByte b) =
      some ⟨.string ((escapeByte b).reverse ++ read) .none, found⟩ := by
  unfold escapeByte
  -- First come the bytes with an escape of their own, then those that are written as a number.
  split
  · rfl
  split
  · rfl
  split
  · rfl
  split
  · rfl
  split
  · rfl
  split
  · rfl
  split
  · rfl
  split
  · rename_i h
    have hlt : b.toNat < 32 := by simpa using UInt8.lt_iff_toNat_lt.1 h
    have hhigh : Hex.isDigit (Hex.digitByte (b.toNat / 16)) = true := by
      simp [Hex.isDigit, Hex.digitValue?_digitByte (b.toNat / 16) (by omega)]
    have hlow : Hex.isDigit (Hex.digitByte (b.toNat % 16)) = true := by
      simp [Hex.isDigit, Hex.digitValue?_digitByte (b.toNat % 16) (by omega)]
    have hzero : Hex.isDigit 0x30 = true := by decide
    simp [run, step, inString, hhigh, hlow, hzero]
  · rename_i hquote hslash _ _ _ _ _ hlow
    simp [run, step, inString, hquote, hslash, hlow]

theorem run_escape (bs read : Bytes) (found : List Token) :
    run ⟨.string read .none, found⟩ (escape bs) =
      some ⟨.string ((escape bs).reverse ++ read) .none, found⟩ := by
  induction bs generalizing read with
  | nil => rfl
  | cons b bs ih =>
      rw [show escape (b :: bs) = escapeByte b ++ escape bs from rfl, run_append, run_escapeByte,
        Option.bind_some, ih, List.reverse_append, List.append_assoc]

/-- A string is found. -/
theorem run_string {s : State} {found : List Token} (h : Reached s found) (bs : Bytes) :
    run s (Token.string (escape bs)).bytes =
      some ⟨.between, .string (escape bs) :: found⟩ := by
  have hopen : step s 0x22 = some ⟨.string [] .none, found⟩ := h.step_eq rfl
  rw [Token.bytes, List.cons_append, run_cons, hopen, Option.bind_some, run_append, run_escape,
    Option.bind_some, run_cons]
  simp [step, inString, run]

/-! ### Numerals -/

/-- What is held by a numeral is not held by anything else outside of strings. -/
theorem isNumeric_ofNat : ∀ n < 256, isNumeric (UInt8.ofNat n) = true →
    isBlank (UInt8.ofNat n) = false ∧ single? (UInt8.ofNat n) = none ∧
      UInt8.ofNat n ≠ 0x22 ∧ UInt8.ofNat n ≠ 0x6e ∧ UInt8.ofNat n ≠ 0x74 ∧
      UInt8.ofNat n ≠ 0x66 := by
  decide +kernel

/-- A byte of a numeral starts one. -/
theorem start_of_isNumeric {b : UInt8} (h : isNumeric b = true) (found : List Token) :
    start found b = some ⟨.number [b], found⟩ := by
  have key := isNumeric_ofNat b.toNat b.toNat_lt
  rw [UInt8.ofNat_toNat] at key
  obtain ⟨hblank, hsingle, hquote, hn, ht, hf⟩ := key h
  simp [start, hblank, hsingle, hquote, hn, ht, hf, h]

theorem run_numeric (bs read : Bytes) (found : List Token) (h : ∀ b ∈ bs, isNumeric b = true) :
    run ⟨.number read, found⟩ bs = some ⟨.number (bs.reverse ++ read), found⟩ := by
  induction bs generalizing read with
  | nil => rfl
  | cons b bs ih =>
      have hb : step ⟨.number read, found⟩ b = some ⟨.number (b :: read), found⟩ := by
        simp [step, h b List.mem_cons_self]
      rw [run_cons, hb, Option.bind_some, ih _ fun c hc => h c (List.mem_cons_of_mem b hc)]
      simp

/-- A legible numeral between two other tokens is found, at the latest with the byte after it. -/
theorem run_number {n : Numeral} (h : n.Legible) (found : List Token) :
    ∃ s, run ⟨.between, found⟩ (Token.number n).bytes = some s ∧
      Reached s (.number n :: found) := by
  cases hbytes : n.bytes with
  | nil => exact absurd hbytes h.bytes_ne_nil
  | cons b bs =>
      have hnumeric := h.isNumeric
      have hread := h.ofBytes?_bytes
      rw [hbytes] at hnumeric hread
      -- The scan is still inside the numeral; it is over with the byte that comes next.
      refine ⟨⟨.number (bs.reverse ++ [b]), found⟩, ?_, .number found (by simpa using hread)⟩
      rw [Token.bytes, hbytes, run_cons]
      rw [show step ⟨.between, found⟩ b = start found b from rfl,
        start_of_isNumeric (hnumeric b List.mem_cons_self), Option.bind_some,
        run_numeric bs [b] found fun c hc => hnumeric c (List.mem_cons_of_mem b hc)]

/-! ### Documents -/

/-- The bytes of tokens. -/
def bytesOf (ts : List Token) : Bytes := ts.flatMap Token.bytes

/-- Tokens that are found one after the other from between two tokens. -/
def Found (ts : List Token) : Prop :=
  ∀ found, ∃ s, run ⟨.between, found⟩ (bytesOf ts) = some s ∧ Reached s (ts.reverse ++ found)

/-- A bracket, a comma or a colon. -/
def IsMark (t : Token) : Prop :=
  ∃ b, t.bytes = [b] ∧ isNumeric b = false ∧ ∀ found, start found b = some ⟨.between, t :: found⟩

theorem isMark_of_single? {t : Token} {b : UInt8} (hbytes : t.bytes = [b])
    (hsingle : single? b = some t) (hblank : isBlank b = false) (hnumeric : isNumeric b = false) :
    IsMark t :=
  ⟨b, hbytes, hnumeric, fun found => by simp [start, hblank, hsingle]⟩

theorem isMark_comma : IsMark .comma := isMark_of_single? rfl rfl rfl rfl
theorem isMark_colon : IsMark .colon := isMark_of_single? rfl rfl rfl rfl
theorem isMark_openBracket : IsMark .openBracket := isMark_of_single? rfl rfl rfl rfl
theorem isMark_closeBracket : IsMark .closeBracket := isMark_of_single? rfl rfl rfl rfl
theorem isMark_openBrace : IsMark .openBrace := isMark_of_single? rfl rfl rfl rfl
theorem isMark_closeBrace : IsMark .closeBrace := isMark_of_single? rfl rfl rfl rfl

/-- A mark is found after whatever has been found. -/
theorem IsMark.run_eq {t : Token} (h : IsMark t) {s : State} {found : List Token}
    (hs : Reached s found) : run s t.bytes = some ⟨.between, t :: found⟩ := by
  obtain ⟨b, hbytes, hnumeric, hstart⟩ := h
  rw [hbytes, run_cons, hs.step_eq hnumeric, hstart]
  rfl

/-- A mark separates what comes before it from what comes after it. -/
theorem Found.append_mark {ts us : List Token} {t : Token} (hts : Found ts) (h : IsMark t)
    (hus : Found us) : Found (ts ++ t :: us) := by
  intro found
  obtain ⟨s, hs, hreached⟩ := hts found
  obtain ⟨s', hs', hreached'⟩ := hus (t :: (ts.reverse ++ found))
  refine ⟨s', ?_, by simpa using hreached'⟩
  simp only [bytesOf, List.flatMap_append, List.flatMap_cons] at hs hs' ⊢
  rw [run_append, hs, Option.bind_some, run_append, h.run_eq hreached, Option.bind_some, hs']

theorem found_nil : Found [] := fun found => ⟨_, rfl, .between found⟩

theorem Found.cons_mark {us : List Token} {t : Token} (h : IsMark t) (hus : Found us) :
    Found (t :: us) :=
  found_nil.append_mark h hus

theorem found_string (bs : Bytes) : Found [.string (escape bs)] := fun found =>
  ⟨_, by simpa [bytesOf] using run_string (.between found) bs, .between _⟩

theorem found_number {n : Numeral} (h : n.Legible) : Found [.number n] := by
  intro found
  simpa [bytesOf] using run_number h found

theorem found_itemTokens : ∀ items : List Json, (∀ item ∈ items, Found item.tokens) →
    Found (itemTokens items)
  | [], _ => found_nil
  | [item], h => h item List.mem_cons_self
  | item :: next :: rest, h =>
      (h item List.mem_cons_self).append_mark isMark_comma
        (found_itemTokens (next :: rest) fun j hj => h j (List.mem_cons_of_mem item hj))

theorem found_memberTokens : ∀ members : List (Bytes × Json),
    (∀ m ∈ members, ∃ bs, m.1 = escape bs) → (∀ m ∈ members, Found m.2.tokens) →
    Found (memberTokens members)
  | [], _, _ => found_nil
  | [(key, value)], hkeys, h => by
      obtain ⟨bs, rfl⟩ := hkeys (key, value) List.mem_cons_self
      exact (found_string bs).append_mark isMark_colon (h _ List.mem_cons_self)
  | (key, value) :: next :: rest, hkeys, h => by
      obtain ⟨bs, rfl⟩ := hkeys (key, value) List.mem_cons_self
      have hrest := found_memberTokens (next :: rest)
        (fun m hm => hkeys m (List.mem_cons_of_mem _ hm))
        fun m hm => h m (List.mem_cons_of_mem _ hm)
      exact (found_string bs).append_mark isMark_colon
        ((h _ List.mem_cons_self).append_mark isMark_comma hrest)

/-- The tokens of a legible document are found. -/
theorem found_tokens {document : Json} (h : Legible document) : Found document.tokens := by
  induction h with
  | null => exact fun found => ⟨_, rfl, .between _⟩
  | bool b => cases b <;> exact fun found => ⟨_, rfl, .between _⟩
  | number hn => exact found_number hn
  | string bs => exact found_string bs
  | array _ ih =>
      exact .cons_mark isMark_openBracket
        ((found_itemTokens _ ih).append_mark isMark_closeBracket found_nil)
  | object hkeys _ ih =>
      exact .cons_mark isMark_openBrace
        ((found_memberTokens _ hkeys ih).append_mark isMark_closeBrace found_nil)

end Scan

/-- The tokens of a legible document are scanned back. -/
theorem scan?_render {document : Json} (h : Legible document) :
    scan? document.render = some document.tokens := by
  obtain ⟨s, hs, hreached⟩ := Scan.found_tokens h []
  have hrun : document.render.foldlM Scan.step ⟨.between, []⟩ = some s := hs
  rw [scan?, hrun, Option.bind_some, hreached.finish_eq]
  simp

end HashCalendar.Json
