/-
**Written documents are read back.**

The reader keeps a stack of the lists and objects whose end it has not reached.  From a state that
expects a value the tokens of a document lead to the state that has this value, whatever the stack
is; so a document is read back by the same recursion by which it was written.  Records are objects
whose keys are known: the fields of a written record are found under their names.

Main results:

* `HashCalendar.Json.read?_render` — **a legible document is read back**;
* `HashCalendar.Json.record?_ofMembers` — the members of a written record are its fields;
* `HashCalendar.Json.legible_ofMembers` — a record of legible members is legible.
-/

import HashCalendar.Json.Record
import HashCalendar.Proofs.Json.Scan

set_option relaxedAutoImplicit false
set_option autoImplicit false

namespace HashCalendar.Json

/-! ### Tokens to a document -/

namespace Parse

/-- The state after more tokens. -/
def run (s : State) (ts : List Token) : Option State := ts.foldlM step s

theorem run_cons (s : State) (t : Token) (ts : List Token) :
    run s (t :: ts) = (step s t).bind fun s' => run s' ts := rfl

theorem run_append (s : State) (ts us : List Token) :
    run s (ts ++ us) = (run s ts).bind fun s' => run s' us :=
  List.foldlM_append

/-- Tokens that make up a value wherever one is expected. -/
def Yields (ts : List Token) (v : Json) : Prop :=
  ∀ frames, run (.value frames) ts = some (.after v frames)

/-- The first token of a document is no bracket that closes a list. -/
theorem tokens_eq_cons (document : Json) :
    ∃ t ts, document.tokens = t :: ts ∧ t ≠ .closeBracket := by
  cases document <;> exact ⟨_, _, rfl, by simp⟩

/-- Where a list has just been opened, its first item is read like any other. -/
theorem run_firstItem (document : Json) (frames : List Frame) (us : List Token) :
    run (.firstItem frames) (document.tokens ++ us) =
      run (.value (.items [] :: frames)) (document.tokens ++ us) := by
  -- The two differ at a closing bracket only, and no document starts with one.
  obtain ⟨t, ts, hts, ht⟩ := tokens_eq_cons document
  rw [hts, List.cons_append, run_cons, run_cons]
  congr 1
  cases t <;> first | rfl | exact absurd rfl ht

/-- The items of a list up to its end. -/
theorem run_itemTokens : ∀ items : List Json, items ≠ [] → (∀ j ∈ items, Yields j.tokens j) →
    ∀ (read : List Json) (frames : List Frame),
      run (.value (.items read :: frames)) (itemTokens items ++ [.closeBracket]) =
        some (.after (.array (read.reverse ++ items)) frames)
  | [], hne, _, _, _ => absurd rfl hne
  | [item], _, h, read, frames => by
      rw [show itemTokens [item] = item.tokens from rfl, run_append, h item List.mem_cons_self,
        Option.bind_some, run_cons]
      simp [step, run]
  | item :: next :: rest, _, h, read, frames => by
      have hrest := run_itemTokens (next :: rest) (by simp)
        (fun j hj => h j (List.mem_cons_of_mem item hj)) (item :: read) frames
      rw [show itemTokens (item :: next :: rest) =
          item.tokens ++ .comma :: itemTokens (next :: rest) from rfl,
        List.append_assoc, run_append, h item List.mem_cons_self, Option.bind_some,
        List.cons_append, run_cons]
      simp only [step, Option.bind_some]
      rw [hrest]
      simp

/-- A key and its colon. -/
theorem run_key (key : Bytes) (read : List (Bytes × Json)) (frames : List Frame)
    (ts : List Token) :
    run (.key read frames) (.string key :: .colon :: ts) =
      run (.value (.member read key :: frames)) ts := rfl

/-- The members of an object up to its end. -/
theorem run_memberTokens : ∀ members : List (Bytes × Json), members ≠ [] →
    (∀ m ∈ members, Yields m.2.tokens m.2) →
    ∀ (read : List (Bytes × Json)) (frames : List Frame),
      run (.key read frames) (memberTokens members ++ [.closeBrace]) =
        some (.after (.object (read.reverse ++ members)) frames)
  | [], hne, _, _, _ => absurd rfl hne
  | [(key, v)], _, h, read, frames => by
      have hv : Yields v.tokens v := h (key, v) List.mem_cons_self
      rw [show memberTokens [(key, v)] = .string key :: .colon :: v.tokens from rfl,
        List.cons_append, List.cons_append, run_key, run_append, hv, Option.bind_some, run_cons]
      simp [step, run]
  | (key, v) :: next :: rest, _, h, read, frames => by
      have hv : Yields v.tokens v := h (key, v) List.mem_cons_self
      have hrest := run_memberTokens (next :: rest) (by simp)
        (fun m hm => h m (List.mem_cons_of_mem _ hm)) ((key, v) :: read) frames
      rw [show memberTokens ((key, v) :: next :: rest) =
          .string key :: .colon :: (v.tokens ++ .comma :: memberTokens (next :: rest)) from rfl,
        List.cons_append, List.cons_append, run_key, List.append_assoc, run_append, hv,
        Option.bind_some, List.cons_append, run_cons]
      simp only [step, Option.bind_some]
      rw [hrest]
      simp

/-- Where an object has just been opened, its first key is read like any other. -/
theorem run_firstKey (members : List (Bytes × Json)) (hne : members ≠ []) (frames : List Frame)
    (us : List Token) :
    run (.firstKey frames) (memberTokens members ++ us) =
      run (.key [] frames) (memberTokens members ++ us) := by
  match members with
  | [] => exact absurd rfl hne
  | [(key, v)] => rfl
  | (key, v) :: next :: rest => rfl

/-- The tokens of a list. -/
theorem yields_array {items : List Json} (h : ∀ j ∈ items, Yields j.tokens j) :
    Yields (Json.array items).tokens (.array items) := by
  intro frames
  rw [show (Json.array items).tokens = .openBracket :: (itemTokens items ++ [.closeBracket]) from
    rfl, run_cons]
  simp only [step, startValue, Option.bind_some]
  match items with
  | [] => rfl
  | [item] =>
      rw [show itemTokens [item] = item.tokens from rfl, run_firstItem]
      exact run_itemTokens [item] (by simp) h [] frames
  | item :: next :: rest =>
      rw [show itemTokens (item :: next :: rest) =
          item.tokens ++ .comma :: itemTokens (next :: rest) from rfl,
        List.append_assoc, run_firstItem, ← List.append_assoc]
      exact run_itemTokens (item :: next :: rest) (by simp) h [] frames

/-- The tokens of an object. -/
theorem yields_object {members : List (Bytes × Json)} (h : ∀ m ∈ members, Yields m.2.tokens m.2) :
    Yields (Json.object members).tokens (.object members) := by
  intro frames
  rw [show (Json.object members).tokens = .openBrace :: (memberTokens members ++ [.closeBrace]) from
    rfl, run_cons]
  simp only [step, startValue, Option.bind_some]
  by_cases hne : members = []
  · subst hne
    rfl
  · rw [run_firstKey members hne]
    exact run_memberTokens members hne h [] frames

/-- The tokens of a document make up the document. -/
theorem yields_tokens {document : Json} (h : Legible document) :
    Yields document.tokens document := by
  induction h with
  | null => exact fun _ => rfl
  | bool b => exact fun _ => rfl
  | number _ => exact fun _ => rfl
  | string _ => exact fun _ => rfl
  | array _ ih => exact yields_array ih
  | object _ _ ih => exact yields_object ih

end Parse

/-- A legible document is read back. -/
theorem read?_render {document : Json} (h : Legible document) :
    read? document.render = some document := by
  have hrun : document.tokens.foldlM Parse.step (.value []) = some (.after document []) :=
    Parse.yields_tokens h []
  rw [read?, scan?_render h, Option.bind_some, ofTokens?, hrun]
  rfl

/-! ### Texts, counts and lists -/

theorem legible_ofText (s : String) : Legible (ofText s) := .string _

theorem legible_ofNat (n : Nat) : Legible (ofNat n) := .number (Numeral.legible_ofNat n)

/-- A text is read back. -/
@[simp] theorem textOf?_ofText (s : String) : textOf? (ofText s) = some s := text?_escape s

/-- A count of 64 bits is read back. -/
theorem countOf?_ofNat {n : Nat} (h : n < UInt64.size) : countOf? (ofNat n) = some n := by
  simp [ofNat, countOf?, Numeral.count?, Numeral.ofNat, h]

/-- A list of readable items is read back. -/
theorem listOf?_array {α : Type} {toJson : α → Json} {item? : Json → Option α}
    (h : ∀ a, item? (toJson a) = some a) (items : List α) :
    listOf? item? (.array (items.map toJson)) = some items := by
  induction items with
  | nil => rfl
  | cons a items ih =>
      simp only [listOf?, List.map_cons, List.mapM_cons, h] at ih ⊢
      simp [ih]

theorem legible_array {α : Type} {toJson : α → Json} (h : ∀ a, Legible (toJson a))
    (items : List α) : Legible (.array (items.map toJson)) := by
  refine .array fun j hj => ?_
  obtain ⟨a, _, rfl⟩ := List.mem_map.1 hj
  exact h a

/-! ### Records -/

/-- A record of legible members is legible. -/
theorem legible_ofMembers {members : List (String × Json)} (h : ∀ m ∈ members, Legible m.2) :
    Legible (ofMembers members) := by
  refine .object ?_ ?_
  · intro m hm
    obtain ⟨n, _, rfl⟩ := List.mem_map.1 hm
    exact ⟨_, rfl⟩
  · intro m hm
    obtain ⟨n, hn, rfl⟩ := List.mem_map.1 hm
    exact h n hn

theorem namedMembers?_map_escape (members : List (String × Json)) :
    namedMembers? (members.map fun m => (escape (Text.encode m.1), m.2)) = some members := by
  induction members with
  | nil => rfl
  | cons m members ih =>
      simp only [namedMembers?, List.map_cons, List.mapM_cons, text?_escape] at ih ⊢
      simp [ih]

/-- The members of a written record are its fields, if they are asked for under these names. -/
theorem record?_ofMembers {names : List String} {members : List (String × Json)}
    (hnames : ∀ m ∈ members, names.contains m.1 = true)
    (hdistinct : distinct (members.map Prod.fst) = true) :
    record? names (ofMembers members) = some members := by
  have hfilter : members.filter (fun m => names.contains m.1) = members :=
    List.filter_eq_self.2 hnames
  simp only [record?, ofMembers, namedMembers?_map_escape, Option.bind_eq_bind, Option.bind_some,
    hfilter, hdistinct, if_true]

/-- Where no member is asked for, no field is present. -/
theorem record?_of_foreign {names : List String} {members : List (String × Json)}
    (hnames : ∀ m ∈ members, names.contains m.1 = false) :
    record? names (ofMembers members) = some [] := by
  have hfilter : members.filter (fun m => names.contains m.1) = [] :=
    List.filter_eq_nil_iff.2 fun m hm => by rw [hnames m hm]; exact Bool.false_ne_true
  simp only [record?, ofMembers, namedMembers?_map_escape, Option.bind_eq_bind, Option.bind_some,
    hfilter, List.map_nil, distinct, if_true]

/-- A single written member is read with its key. -/
@[simp] theorem variant?_ofMembers (key : String) (v : Json) :
    variant? (ofMembers [(key, v)]) = some (key, v) := by
  simp [variant?, ofMembers]

end HashCalendar.Json
