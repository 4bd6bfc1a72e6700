/-
**Written lines are read back.**

The names of sections and of their members are keys that need no quotes.  So a line begins with a
bracket or with a character of its key, and can be no comment; its value ends right before the line
break.  A reader of lines takes up fuel for every line, and there is at least one character in each.

Main definitions:

* `HashCalendar.Toml.IsBareKey` — the keys that need no quotes;
* `HashCalendar.Toml.Entry.value` — what an entry stands for;
* `HashCalendar.Toml.Section.lines` — the lines of a section;
* `HashCalendar.Toml.Section.Legible` — sections with bare keys, none of them twice;
* `HashCalendar.Toml.LinesAre` — texts that consist of given lines.

Main results:

* `HashCalendar.Toml.value?_chars` — the value of an entry is read back;
* `HashCalendar.Toml.line?_header`, `HashCalendar.Toml.line?_pairChars` — the two kinds of line;
* `HashCalendar.Toml.lines?_intercalate` — **the lines of written sections are read back**.
-/

import HashCalendar.Proofs.Toml.Quoted
import HashCalendar.Proofs.Toml.Scalar
import HashCalendar.Toml.Line
import HashCalendar.Toml.Writer

set_option relaxedAutoImplicit false
set_option autoImplicit false

namespace HashCalendar.Toml

/-! ### What is written -/

/-- The value that an entry stands for. -/
def Entry.value : Entry → Toml
  | .text s => .text s
  | .count n => .integer n
  | .flag b => .boolean b

/-- The lines of a section. -/
def Section.lines (s : Section) : List Line :=
  .table [] s.name :: s.entries.map fun e => .pair [] e.1 e.2.value

/-- The keys that need no quotes. -/
def IsBareKey (key : String) : Prop := key.toList ≠ [] ∧ key.toList.all isKeyChar = true

instance (key : String) : Decidable (IsBareKey key) := inferInstanceAs (Decidable (_ ∧ _))

/-- Sections with bare keys, none of them twice. -/
structure Section.Legible (s : Section) : Prop where
  name : IsBareKey s.name
  keys : ∀ e ∈ s.entries, IsBareKey e.1
  nodup : (s.entries.map Prod.fst).Nodup

/-! ### Characters -/

/-- Characters differ if only one of them is in a class. -/
theorem ne_of_class {p : Char → Bool} {c d : Char} (hc : p c = true) (hd : p d = false) :
    c ≠ d := by
  rintro rfl
  rw [hd] at hc
  cases hc

theorem skipBlanks_cons {c : Char} (hblank : c ≠ ' ') (htab : c ≠ '\t') (rest : List Char) :
    skipBlanks (c :: rest) = c :: rest :=
  List.dropWhile_cons_of_neg (by simp [hblank, htab])

/-- A blank is passed over. -/
@[simp] theorem skipBlanks_blank (rest : List Char) : skipBlanks (' ' :: rest) = skipBlanks rest :=
  rfl

/-- A line break ends a line. -/
theorem endLine?_break (rest : List Char) : endLine? ('\n' :: rest) = some rest := rfl

/-! ### Keys -/

/-- A bare key begins with one of its characters. -/
theorem IsBareKey.exists_cons {key : String} (h : IsBareKey key) :
    ∃ c cs, key.toList = c :: cs ∧ isKeyChar c = true := by
  obtain ⟨hne, hkey⟩ := h
  cases hlist : key.toList with
  | nil => exact absurd hlist hne
  | cons c cs =>
      rw [hlist, List.all_cons, Bool.and_eq_true] at hkey
      exact ⟨c, cs, rfl, hkey.1⟩

theorem IsBareKey.skipBlanks {key : String} (h : IsBareKey key) (rest : List Char) :
    skipBlanks (key.toList ++ rest) = key.toList ++ rest := by
  obtain ⟨c, cs, hkey, hc⟩ := h.exists_cons
  rw [hkey, List.cons_append, skipBlanks_cons (ne_of_class hc rfl) (ne_of_class hc rfl)]

/-- A bare key is read up to a character that it cannot hold. -/
theorem keyPart?_bare {key : String} (h : IsBareKey key) {d : Char} (hd : isKeyChar d = false)
    (rest : List Char) : keyPart? (key.toList ++ d :: rest) = some (key, d :: rest) := by
  obtain ⟨c, cs, hkey, hc⟩ := h.exists_cons
  have hclass := List.all_eq_true.1 h.2
  have hquoted : Quoted.readLine? (key.toList ++ d :: rest) = none := by
    rw [hkey, List.cons_append, Quoted.readLine?]
    · exact fun _ he => ne_of_class hc rfl (List.cons.inj he).1
    · exact fun _ he => ne_of_class hc rfl (List.cons.inj he).1
  have htake : (key.toList ++ d :: rest).takeWhile isKeyChar = key.toList := by
    rw [List.takeWhile_append_of_pos hclass, List.takeWhile_cons_of_neg (by simp [hd]),
      List.append_nil]
  have hdrop : (key.toList ++ d :: rest).dropWhile isKeyChar = d :: rest := by
    rw [List.dropWhile_append_of_pos hclass, List.dropWhile_cons_of_neg (by simp [hd])]
  rw [keyPart?, hquoted, htake, hdrop, hkey]
  dsimp only
  rw [← hkey, String.ofList_toList]

/-- A bare key is a key of one part, unless a dot follows. -/
theorem key?_bare {key : String} (h : IsBareKey key) {d : Char} (hd : isKeyChar d = false)
    {mark : Char} {rest more : List Char} (hmore : skipBlanks (d :: rest) = mark :: more)
    (hdot : mark ≠ '.') :
    key? maxNesting (key.toList ++ d :: rest) = some (([], key), mark :: more) := by
  rw [maxNesting, key?, h.skipBlanks, keyPart?_bare h hd]
  simp [hmore, hdot]

/-! ### Values -/

theorem value?_quote {mark : Char} (h : mark = '"' ∨ mark = '\'') (cs : List Char) :
    value? (mark :: cs) =
      (Quoted.read? (mark :: cs)).map fun r => (.text (String.ofList r.1), r.2) := by
  rcases h with rfl | rfl
  · rw [value?, valueWithin?]
  · rw [value?, valueWithin?]

theorem value?_word {c : Char} (h : isWordChar c = true) (cs : List Char) :
    value? (c :: cs) = scalar? (c :: cs) := by
  have hne : ∀ {d : Char} {more : List Char}, isWordChar d = false → c :: cs ≠ d :: more :=
    fun hd he => ne_of_class h hd (List.cons.inj he).1
  rw [value?, valueWithin?]
  · exact fun _ => hne rfl
  · exact fun _ => hne rfl
  · exact fun _ _ => hne rfl
  · exact fun _ _ => hne rfl
  · exact fun _ _ _ => hne rfl
  · exact fun _ _ _ => hne rfl

/-- A word is read behind blanks. -/
theorem value?_skipBlanks_word {c : Char} (h : isWordChar c = true) (cs : List Char) :
    value? (skipBlanks (c :: cs)) = scalar? (c :: cs) := by
  rw [skipBlanks_cons (ne_of_class h rfl) (ne_of_class h rfl), value?_word h]

/-- The value of an entry that fits is read back. -/
theorem value?_chars {e : Entry} (h : e.fits = true) (rest : List Char) :
    value? (skipBlanks (e.chars ++ '\n' :: rest)) = some (e.value, '\n' :: rest) := by
  cases e with
  | text s =>
      obtain ⟨mark, written, hmark, hwrite⟩ := Quoted.write_cons s.toList
      have hread : Quoted.read? (Quoted.write s.toList ++ '\n' :: rest) =
          some (s.toList, '\n' :: rest) := Quoted.read?_write s.toList (by simp) (by simp)
      have hblank : mark ≠ ' ' ∧ mark ≠ '\t' := by rcases hmark with rfl | rfl <;> decide
      rw [hwrite, List.cons_append] at hread
      rw [Entry.chars, hwrite, List.cons_append, skipBlanks_cons hblank.1 hblank.2,
        value?_quote hmark, hread, Option.map_some, String.ofList_toList]
      rfl
  | count n =>
      have hscalar := scalar?_chars (of_decide_eq_true h) rest
      obtain ⟨c, cs, hchars⟩ := List.exists_cons_of_ne_nil (Decimal.chars_ne_nil n)
      have hc : isWordChar c = true := isWordChar_of_mem_chars (hchars ▸ List.mem_cons_self)
      rw [hchars, List.cons_append] at hscalar
      rw [Entry.chars, hchars, List.cons_append, value?_skipBlanks_word hc, hscalar]
      rfl
  | flag b =>
      have hscalar := scalar?_boolean b rest
      cases b with
      | true => exact (value?_skipBlanks_word rfl _).trans hscalar
      | false => exact (value?_skipBlanks_word rfl _).trans hscalar

/-! ### Lines -/

/-- Where a key begins, no line ends. -/
theorem endLine?_of_isKeyChar {c : Char} (h : isKeyChar c = true) (cs : List Char) :
    endLine? (c :: cs) = none := by
  have hcomment : c ≠ '#' := ne_of_class h rfl
  have hbreak : c ≠ '\n' := ne_of_class h rfl
  have hreturn : c ≠ '\r' := ne_of_class h rfl
  rw [endLine?, skipBlanks_cons (ne_of_class h rfl) (ne_of_class h rfl)]
  simp [hcomment, hbreak, hreturn]

/-- The header of a section is read back. -/
theorem line?_header {name : String} (h : IsBareKey name) (rest : List Char) :
    line? ('[' :: (name.toList ++ ']' :: '\n' :: rest)) = some (some (.table [] name), rest) := by
  obtain ⟨c, cs, hname, hc⟩ := h.exists_cons
  have hbracket : c ≠ '[' := ne_of_class hc rfl
  have hkey : key? maxNesting (name.toList ++ ']' :: '\n' :: rest) =
      some (([], name), ']' :: '\n' :: rest) := key?_bare h rfl rfl (by decide)
  rw [hname, List.cons_append] at hkey
  rw [line?, skipBlanks_cons (by decide) (by decide), hname, List.cons_append]
  simp [hbracket, hkey, endLine?_break]

/-- The line of a pair is read back. -/
theorem line?_pairChars {pair : String × Entry} (hkey : IsBareKey pair.1)
    (hfits : pair.2.fits = true) (rest : List Char) :
    line? (pairChars pair ++ rest) = some (some (.pair [] pair.1 pair.2.value), rest) := by
  obtain ⟨c, cs, hname, hc⟩ := hkey.exists_cons
  have hbracket : c ≠ '[' := ne_of_class hc rfl
  have hchars : pairChars pair ++ rest =
      pair.1.toList ++ ' ' :: '=' :: ' ' :: (pair.2.chars ++ '\n' :: rest) := by
    simp [pairChars]
  have hread : key? maxNesting
      (pair.1.toList ++ ' ' :: '=' :: ' ' :: (pair.2.chars ++ '\n' :: rest)) =
        some (([], pair.1), '=' :: ' ' :: (pair.2.chars ++ '\n' :: rest)) :=
    key?_bare hkey rfl rfl (by decide)
  rw [hname, List.cons_append] at hread
  rw [hchars, line?, hkey.skipBlanks, hname, List.cons_append]
  simp [hbracket, endLine?_of_isKeyChar hc, hread, value?_chars hfits, endLine?_break]

/-! ### Texts of several lines -/

/-- Texts that consist of given lines, for which a unit of fuel for each character is enough. -/
def LinesAre (cs : List Char) (lines : List Line) : Prop :=
  ∀ fuel, cs.length ≤ fuel → linesWithin? fuel cs = some lines

theorem LinesAre.nil : LinesAre [] [] := by
  intro fuel _
  rw [linesWithin?]

/-- One more line, or blank line, in front. -/
theorem LinesAre.append {chunk rest : List Char} {line : Option Line} {lines : List Line}
    (hne : chunk ≠ []) (hline : line? (chunk ++ rest) = some (line, rest))
    (h : LinesAre rest lines) : LinesAre (chunk ++ rest) (line.toList ++ lines) := by
  intro fuel hfuel
  have hlength : 0 < chunk.length := List.length_pos_iff.2 hne
  rw [List.length_append] at hfuel
  obtain ⟨fuel, rfl⟩ : ∃ k, fuel = k + 1 := ⟨fuel - 1, by omega⟩
  rw [linesWithin?, hline, Option.bind_eq_bind, Option.bind_some]
  · dsimp only
    rw [h fuel (by omega), Option.map_some]
  · exact fun he => hne (List.append_eq_nil_iff.1 he).1

/-- One more blank line in front. -/
theorem LinesAre.blank {rest : List Char} {lines : List Line} (h : LinesAre rest lines) :
    LinesAre ('\n' :: rest) lines := by
  have hline : line? (['\n'] ++ rest) = some (none, rest) := rfl
  exact h.append (List.cons_ne_nil '\n' []) hline

/-- The pairs of a section are lines. -/
theorem linesAre_pairs {entries : List (String × Entry)} (hkeys : ∀ e ∈ entries, IsBareKey e.1)
    (hfits : ∀ e ∈ entries, e.2.fits = true) {rest : List Char} {lines : List Line}
    (h : LinesAre rest lines) :
    LinesAre (entries.flatMap pairChars ++ rest)
      (entries.map (fun e => Line.pair [] e.1 e.2.value) ++ lines) := by
  induction entries with
  | nil => exact h
  | cons e entries ih =>
      rw [List.forall_mem_cons] at hkeys hfits
      have hne : pairChars e ≠ [] := by simp [pairChars]
      rw [List.flatMap_cons, List.append_assoc]
      exact (ih hkeys.2 hfits.2).append hne (line?_pairChars hkeys.1 hfits.1 _)

/-- A section is its lines. -/
theorem linesAre_section {s : Section} (hlegible : s.Legible)
    (hfits : ∀ e ∈ s.entries, e.2.fits = true) {rest : List Char} {lines : List Line}
    (h : LinesAre rest lines) : LinesAre (s.chars ++ rest) (s.lines ++ lines) := by
  have hpairs := linesAre_pairs hlegible.keys hfits h
  have hheader : line?
      ('[' :: s.name.toList ++ [']', '\n'] ++ (s.entries.flatMap pairChars ++ rest)) =
        some (some (.table [] s.name), s.entries.flatMap pairChars ++ rest) := by
    simpa using line?_header hlegible.name (s.entries.flatMap pairChars ++ rest)
  rw [Section.chars, List.append_assoc]
  exact hpairs.append (by simp) hheader

/-- Sections with blank lines between them are the lines of all of them. -/
theorem linesAre_intercalate {sections : List Section} (hlegible : ∀ s ∈ sections, s.Legible)
    (hfits : ∀ s ∈ sections, ∀ e ∈ s.entries, e.2.fits = true) :
    LinesAre (List.intercalate ['\n'] (sections.map Section.chars))
      (sections.flatMap Section.lines) := by
  induction sections with
  | nil => exact .nil
  | cons s sections ih =>
      rw [List.forall_mem_cons] at hlegible hfits
      have hrest := ih hlegible.2 hfits.2
      cases sections with
      | nil => simpa using linesAre_section hlegible.1 hfits.1 .nil
      | cons t sections =>
          rw [List.map_cons, List.map_cons, List.intercalate_cons_cons, List.append_assoc]
          exact linesAre_section hlegible.1 hfits.1 hrest.blank

/-- **The lines of written sections are read back.** -/
theorem lines?_intercalate {sections : List Section} (hlegible : ∀ s ∈ sections, s.Legible)
    (hfits : ∀ s ∈ sections, ∀ e ∈ s.entries, e.2.fits = true) :
    lines? (List.intercalate ['\n'] (sections.map Section.chars)) =
      some (sections.flatMap Section.lines) := by
  have hlines := linesAre_intercalate hlegible hfits
  match sections with
  | [] => rfl
  | s :: sections =>
      -- No byte order mark stands before the bracket of the first header.
      obtain ⟨more, hmore⟩ : ∃ more,
          List.intercalate ['\n'] ((s :: sections).map Section.chars) = '[' :: more := by
        cases sections with
        | nil => exact ⟨_, List.intercalate_singleton⟩
        | cons t sections => exact ⟨_, List.intercalate_cons_cons⟩
      rw [hmore] at hlines ⊢
      rw [lines?]
      · exact hlines _ (Nat.le_refl _)
      · exact nofun

end HashCalendar.Toml
