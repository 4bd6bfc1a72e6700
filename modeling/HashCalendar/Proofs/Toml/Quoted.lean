/-
**Quoted texts are read back.**

Whatever form a text is written in, the text itself is read, and the reader stops right behind the
closing quotes.  Between single marks no mark may stand for itself: in double quotes it is escaped,
and single quotes are taken only where there is none.  Between three marks up to two may stand side
by side, also right before the closing ones; so the reading of a row of marks is settled only by
what follows the row, and the statements on texts between three marks carry the marks that stand
before.

Main definitions:

* `HashCalendar.Toml.Quoted.ReadsMarks` — a reader of texts between three marks.

Main results:

* `HashCalendar.Toml.Quoted.escape_cases` — the ways of writing a character between double quotes;
* `HashCalendar.Toml.Quoted.basicLines?_escapeAll`, `HashCalendar.Toml.Quoted.literalLines?_self` —
  texts between three marks;
* `HashCalendar.Toml.Quoted.read?_write` — **the written form of a text is read as the text**.
-/

import HashCalendar.Toml.Quoted

set_option relaxedAutoImplicit false
set_option autoImplicit false

namespace HashCalendar.Toml.Quoted

@[simp] theorem before_some (c : Char) (cs rest : List Char) :
    before c (some (cs, rest)) = some (c :: cs, rest) := rfl

/-- Line breaks apart, a character that needs no escape is plain. -/
theorem isPlain_of_not_isControl {c : Char} (h : isControl c = false) (hc : c ≠ '\n') :
    isPlain c = true := by
  simpa [isControl, hc] using h

/-! ### Characters between double quotes -/

/-- The four digits of a character below 128 denote it. -/
theorem numbered?_digits : ∀ n < 128,
    numbered? ['0', '0', Hex.digit (n / 16), (Hex.digit (n % 16)).toUpper] =
      some (Char.ofNat n) := by
  decide

/-- A character is written as a line break, by a letter, by its number, or as itself. -/
theorem escape_cases (lines : Bool) (c : Char) :
    (c = '\n' ∧ lines = true ∧ escape lines c = ['\n']) ∨
    (∃ letter, lettered? letter = some c ∧ escape lines c = ['\\', letter]) ∨
    (∃ high low, numbered? ['0', '0', high, low] = some c ∧
      escape lines c = ['\\', 'u', '0', '0', high, low]) ∨
    (isPlain c = true ∧ c ≠ '\\' ∧ escape lines c = [c]) := by
  unfold escape
  split
  · next h => exact .inr (.inl ⟨'b', by rw [h]; rfl, rfl⟩)
  split
  · next h => exact .inr (.inl ⟨'t', by rw [h]; rfl, rfl⟩)
  split
  · next h =>
      cases lines with
      | true => exact .inl ⟨h, rfl, rfl⟩
      | false => exact .inr (.inl ⟨'n', by rw [h]; rfl, rfl⟩)
  split
  · next h => exact .inr (.inl ⟨'f', by rw [h]; rfl, rfl⟩)
  split
  · next h => exact .inr (.inl ⟨'r', by rw [h]; rfl, rfl⟩)
  split
  · next h => exact .inr (.inl ⟨'\\', by rw [h]; rfl, rfl⟩)
  split
  · next h =>
      have hlt : c.toNat < 128 := by
        simp only [Bool.or_eq_true, decide_eq_true_eq] at h
        omega
      have hread := numbered?_digits c.toNat hlt
      rw [Char.ofNat_toNat] at hread
      exact .inr (.inr (.inl ⟨_, _, hread, rfl⟩))
  · next hslash hcontrol =>
      refine .inr (.inr (.inr ⟨?_, hslash, rfl⟩))
      simp only [Bool.or_eq_true, decide_eq_true_eq, not_or] at hcontrol
      simp [isPlain, hcontrol.2, Nat.le_of_not_lt hcontrol.1]

/-- No written character begins with a double quote, nor with a carriage return; only a line break
begins with a line break. -/
theorem head?_escape (lines : Bool) {c : Char} (h : c ≠ '"') (rest : List Char) :
    (escape lines c ++ rest).head? ≠ some '"' ∧ (escape lines c ++ rest).head? ≠ some '\r' ∧
      ((escape lines c ++ rest).head? = some '\n' → c = '\n') := by
  rcases escape_cases lines c with
    ⟨hc, -, he⟩ | ⟨letter, -, he⟩ | ⟨high, low, -, he⟩ | ⟨hplain, -, he⟩
  · simp only [he]
    exact ⟨nofun, nofun, fun _ => hc⟩
  · simp [he]
  · simp [he]
  · have hr : c ≠ '\r' := by rintro rfl; cases hplain
    simp [he, h, hr]

theorem ne_of_lettered? {letter c d : Char} (h : lettered? letter = some c)
    (hd : lettered? d = none) : letter ≠ d := by
  rintro rfl
  rw [hd] at h
  cases h

/-- A letter behind a backslash is read as the character that it stands for. -/
theorem basic?_letter {letter c : Char} (h : lettered? letter = some c) (rest : List Char) :
    basic? ('\\' :: letter :: rest) = before c (basic? rest) := by
  rw [basic?, h]
  · rfl
  · exact fun _ _ _ _ _ he _ => ne_of_lettered? h rfl he
  · exact fun _ _ _ _ _ _ _ _ _ he _ => ne_of_lettered? h rfl he

/-- Nothing is folded behind a backslash with a letter. -/
theorem endsLine_letter {letter c : Char} (h : lettered? letter = some c) (rest : List Char) :
    endsLine (letter :: rest) = false := by
  rw [endsLine]
  · exact fun _ he => ne_of_lettered? h rfl (List.cons.inj he).1
  · exact fun _ he => ne_of_lettered? h rfl (List.cons.inj he).1
  · exact fun _ he => ne_of_lettered? h rfl (List.cons.inj he).1
  · exact fun _ he => ne_of_lettered? h rfl (List.cons.inj he).1

theorem basicLines?_letter {letter c : Char} (h : lettered? letter = some c) (rest : List Char) :
    basicLines? false ('\\' :: letter :: rest) = before c (basicLines? false rest) := by
  rw [basicLines?, endsLine_letter h, h]
  · rfl
  · exact fun _ _ _ _ _ he _ => ne_of_lettered? h rfl he
  · exact fun _ _ _ _ _ _ _ _ _ he _ => ne_of_lettered? h rfl he

/-- A character between double quotes is read back. -/
theorem basic?_escape {c : Char} (h : c ≠ '"') (rest : List Char) :
    basic? (escape false c ++ rest) = before c (basic? rest) := by
  rcases escape_cases false c with
    ⟨-, hlines, -⟩ | ⟨letter, hletter, he⟩ | ⟨high, low, hread, he⟩ | ⟨hplain, hslash, he⟩
  · cases hlines
  · rw [he]
    exact basic?_letter hletter rest
  · simp only [he, List.cons_append, List.nil_append]
    rw [basic?, hread]
    rfl
  · rw [he, List.singleton_append, basic?]
    · simp [hplain, hslash]
    · exact h
    · exact fun _ _ _ _ _ hc _ => hslash hc
    · exact fun _ _ _ _ _ _ _ _ _ hc _ => hslash hc
    · exact fun _ _ hc _ => hslash hc

/-- A character between three double quotes is read back. -/
theorem basicLines?_escape {c : Char} (h : c ≠ '"') (rest : List Char) :
    basicLines? false (escape true c ++ rest) = before c (basicLines? false rest) := by
  rcases escape_cases true c with
    ⟨rfl, -, he⟩ | ⟨letter, hletter, he⟩ | ⟨high, low, hread, he⟩ | ⟨hplain, hslash, he⟩
  · rw [he]
    rfl
  · rw [he]
    exact basicLines?_letter hletter rest
  · simp only [he, List.cons_append, List.nil_append]
    rw [basicLines?, hread]
    rfl
  · have hn : c ≠ '\n' := by rintro rfl; cases hplain
    have hr : c ≠ '\r' := by rintro rfl; cases hplain
    rw [he, List.singleton_append, basicLines?]
    · simp [hplain, hslash]
    · exact fun _ hc _ => h hc
    · exact hn
    · exact fun _ hc _ => hr hc
    · exact fun _ _ _ _ _ hc _ => hslash hc
    · exact fun _ _ _ _ _ _ _ _ _ hc _ => hslash hc
    · exact fun _ _ hc _ => hslash hc
    · exact nofun
    · exact nofun
    · exact nofun
    · exact nofun

theorem escapeAll_cons {lines : Bool} {room : Nat} {c : Char} (h : c ≠ '"') (cs : List Char) :
    escapeAll lines room (c :: cs) =
      escape lines c ++ escapeAll lines (if lines then 2 else 0) cs := by
  rw [escapeAll]
  exact h

/-! ### Between single marks -/

/-- A text between double quotes is read back. -/
theorem basic?_escapeAll (cs rest : List Char) :
    basic? (escapeAll false 0 cs ++ '"' :: rest) = some (cs, rest) := by
  induction cs with
  | nil => rfl
  | cons c cs ih =>
      by_cases hc : c = '"'
      · rw [hc, escapeAll, List.cons_append, List.cons_append, basic?_letter rfl]
        exact congrArg (before '"') ih
      · rw [escapeAll_cons hc, List.append_assoc, basic?_escape hc]
        exact congrArg (before c) ih

/-- A text between single quotes is read back. -/
theorem literal?_self {cs : List Char} (hplain : ∀ c ∈ cs, isPlain c = true) (hmark : '\'' ∉ cs)
    (rest : List Char) : literal? (cs ++ '\'' :: rest) = some (cs, rest) := by
  induction cs with
  | nil => rfl
  | cons c cs ih =>
      rw [List.forall_mem_cons] at hplain
      rw [List.mem_cons, not_or] at hmark
      rw [List.cons_append, literal?, if_pos hplain.1, ih hplain.2 hmark.2, before_some]
      exact fun hc => hmark.1 hc.symm

/-! ### Between three marks -/

/-- A reader of texts between three marks ends at three of them and reads a lone one as itself. -/
structure ReadsMarks (mark : Char) (read? : List Char → Option (List Char × List Char)) : Prop where
  three : ∀ rest, read? (mark :: mark :: mark :: rest) = some (closing mark rest)
  one : ∀ rest, (∀ more, rest ≠ mark :: mark :: more) →
    read? (mark :: rest) = before mark (read? rest)

namespace ReadsMarks

variable {mark : Char} {read? : List Char → Option (List Char × List Char)}

/-- Up to two marks before the closing ones belong to the text. -/
theorem close (h : ReadsMarks mark read?) {k : Nat} (hk : k ≤ 2) {rest : List Char}
    (hrest : rest.head? ≠ some mark) :
    read? (List.replicate k mark ++ mark :: mark :: mark :: rest) =
      some (List.replicate k mark, rest) := by
  have hthree := h.three
  match k, hk, rest with
  | 0, _, [] | 1, _, [] | 2, _, [] => simp [List.replicate, hthree, closing]
  | 0, _, [c] | 0, _, c :: _ :: _ | 1, _, c :: _ | 2, _, c :: _ =>
      have hc : c ≠ mark := by simpa using hrest
      simp [List.replicate, hthree, closing, hc]

/-- Up to two marks before something else are read as themselves. -/
theorem row (h : ReadsMarks mark read?) {k : Nat} (hk : k ≤ 2) {written cs rest : List Char}
    (hhead : written.head? ≠ some mark) (hread : read? written = some (cs, rest)) :
    read? (List.replicate k mark ++ written) = some (List.replicate k mark ++ cs, rest) := by
  have hone : read? (mark :: written) = some (mark :: cs, rest) := by
    rw [h.one, hread, before_some]
    rintro more rfl
    exact hhead rfl
  match k, hk with
  | 0, _ => exact hread
  | 1, _ => exact hone
  | 2, _ =>
      refine (h.one (mark :: written) ?_).trans (congrArg (before mark) hone)
      intro more he
      rw [(List.cons.inj he).2] at hhead
      exact hhead rfl

end ReadsMarks

theorem replicate_append_cons (k : Nat) (mark : Char) (cs : List Char) :
    List.replicate k mark ++ mark :: cs = List.replicate (k + 1) mark ++ cs := by
  rw [List.replicate_succ', List.append_assoc, List.singleton_append]

theorem readsMarks_basicLines? : ReadsMarks '"' (basicLines? false) where
  three rest := by rw [basicLines?]
  one rest h := by
    rw [basicLines?]
    · rfl
    · exact fun more _ he => h more he
    · exact nofun
    · exact nofun
    · exact fun _ _ _ _ _ hc _ => nomatch hc
    · exact fun _ _ _ _ _ _ _ _ _ hc _ => nomatch hc
    all_goals nofun

theorem readsMarks_literalLines? : ReadsMarks '\'' literalLines? where
  three _ := rfl
  one rest h := by
    rw [literalLines?]
    · rfl
    · exact fun more _ he => h more he
    all_goals nofun

/-- A text between three double quotes is read back, with the `k` marks that stand before it. -/
theorem basicLines?_escapeAll {k room : Nat} (hk : k + room = 2) (cs : List Char)
    {rest : List Char} (hrest : rest.head? ≠ some '"') :
    basicLines? false
        (List.replicate k '"' ++ (escapeAll true room cs ++ '"' :: '"' :: '"' :: rest)) =
      some (List.replicate k '"' ++ cs, rest) := by
  have hle : k ≤ 2 := by omega
  -- A mark joins the row before the text, which ends with the first character that is none.
  induction cs generalizing k room with
  | nil =>
      rw [List.append_nil]
      exact readsMarks_basicLines?.close hle hrest
  | cons c cs ih =>
      have hnext := @ih 0 2 rfl (by decide)
      by_cases hc : c = '"'
      · cases room with
        | zero =>
            refine readsMarks_basicLines?.row hle ?_ ?_
            · rw [hc, escapeAll]
              exact nofun
            · rw [hc, escapeAll]
              exact congrArg (before '"') hnext
        | succ room =>
            rw [hc, escapeAll, List.cons_append, replicate_append_cons, replicate_append_cons]
            exact ih (by omega) (by omega)
      · rw [escapeAll_cons hc, List.append_assoc]
        refine readsMarks_basicLines?.row hle (head?_escape true hc _).1 ?_
        rw [basicLines?_escape hc]
        exact congrArg (before c) hnext

/-- A character between three single quotes is read back. -/
theorem literalLines?_cons {c : Char} (hclear : isControl c = false) (hc : c ≠ '\'')
    (rest : List Char) : literalLines? (c :: rest) = before c (literalLines? rest) := by
  by_cases hn : c = '\n'
  · rw [hn]
    rfl
  · have hplain := isPlain_of_not_isControl hclear hn
    rw [literalLines?, if_pos hplain]
    · exact fun _ he _ => hc he
    · exact hn
    · rintro _ rfl
      cases hplain

/-- A text between three single quotes is read back, with the `k` marks that stand before it. -/
theorem literalLines?_self {k : Nat} {cs : List Char} (hclear : ∀ c ∈ cs, isControl c = false)
    (hrun : longestRun '\'' k cs ≤ 2) {rest : List Char} (hrest : rest.head? ≠ some '\'') :
    literalLines? (List.replicate k '\'' ++ (cs ++ '\'' :: '\'' :: '\'' :: rest)) =
      some (List.replicate k '\'' ++ cs, rest) := by
  induction cs generalizing k with
  | nil =>
      rw [List.append_nil]
      exact readsMarks_literalLines?.close hrun hrest
  | cons c cs ih =>
      rw [List.forall_mem_cons] at hclear
      rw [longestRun] at hrun
      by_cases hc : c = '\''
      · rw [if_pos hc] at hrun
        rw [hc, List.cons_append, replicate_append_cons, replicate_append_cons]
        exact ih hclear.2 hrun
      · rw [if_neg hc, Nat.max_le] at hrun
        have hnext := ih hclear.2 hrun.2
        refine readsMarks_literalLines?.row hrun.1 (by simpa using hc) ?_
        rw [List.cons_append, literalLines?_cons hclear.1 hc]
        exact congrArg (before c) hnext

/-! ### The form of a text -/

theorem le_longestRun (mark : Char) (run : Nat) (cs : List Char) :
    run ≤ longestRun mark run cs := by
  induction cs generalizing run with
  | nil => exact Nat.le_refl run
  | cons c cs ih =>
      rw [longestRun]
      split
      · exact Nat.le_of_succ_le (ih (run + 1))
      · exact Nat.le_max_left ..

/-- A mark makes a run. -/
theorem not_mem_of_longestRun {mark : Char} {run : Nat} {cs : List Char}
    (h : longestRun mark run cs = 0) : mark ∉ cs := by
  induction cs generalizing run with
  | nil => exact List.not_mem_nil
  | cons c cs ih =>
      rw [longestRun] at h
      split at h
      · have := le_longestRun mark (run + 1) cs
        omega
      · next hc =>
          rw [List.mem_cons, not_or]
          exact ⟨fun he => hc he.symm, @ih 0 (by omega)⟩

/-- What a text is like that is written between single quotes; the other forms take any text. -/
theorem formOf_cases (cs : List Char) :
    formOf cs = .basic ∨ formOf cs = .basicLines ∨
    (formOf cs = .literal ∧ (∀ c ∈ cs, isPlain c = true) ∧ '\'' ∉ cs) ∨
    (formOf cs = .literalLines ∧ (∀ c ∈ cs, isControl c = false) ∧ longestRun '\'' 0 cs ≤ 2) := by
  have hclear : (!cs.any isControl) = true → ∀ c ∈ cs, isControl c = false := by simp
  unfold formOf
  dsimp only
  split
  · exact .inl rfl
  split
  · next h =>
      simp only [Bool.and_eq_true, decide_eq_true_eq] at h
      obtain ⟨⟨hcontrol, hlines⟩, hrun⟩ := h
      refine .inr (.inr (.inl ⟨rfl, ?_, not_mem_of_longestRun hrun⟩))
      intro c hc
      refine isPlain_of_not_isControl (hclear hcontrol c hc) ?_
      rintro rfl
      simp [hc] at hlines
  split
  · exact .inr (.inl rfl)
  split
  · next h =>
      simp only [Bool.and_eq_true, decide_eq_true_eq] at h
      exact .inr (.inr (.inr ⟨rfl, hclear h.1, h.2⟩))
  split
  · exact .inr (.inl rfl)
  · exact .inl rfl

/-! ### The written form -/

theorem dropBreak_of_head? {cs : List Char} (hn : cs.head? ≠ some '\n')
    (hr : cs.head? ≠ some '\r') : dropBreak cs = cs := by
  rw [dropBreak]
  · rintro _ rfl
    exact hn rfl
  · rintro _ rfl
    exact hr rfl

/-- The line break right after the opening marks is there to be passed over. -/
theorem writeLines_append {mark : Char} {cs written rest : List Char}
    (hn : (written ++ mark :: mark :: mark :: rest).head? = some '\n' → '\n' ∈ cs)
    (hr : (written ++ mark :: mark :: mark :: rest).head? ≠ some '\r') :
    ∃ after, writeLines mark cs written ++ rest = mark :: mark :: mark :: after ∧
      dropBreak after = written ++ mark :: mark :: mark :: rest := by
  rw [writeLines]
  by_cases hbreak : '\n' ∈ cs
  · exact ⟨'\n' :: (written ++ mark :: mark :: mark :: rest), by simp [hbreak], rfl⟩
  · exact ⟨written ++ mark :: mark :: mark :: rest, by simp [hbreak],
      dropBreak_of_head? (fun he => hbreak (hn he)) hr⟩

/-- A text begins with a line break between double quotes only if it does so by itself. -/
theorem head?_escapeAll (lines : Bool) (room : Nat) (cs rest : List Char) :
    ((escapeAll lines room cs ++ '"' :: rest).head? = some '\n' → '\n' ∈ cs) ∧
      (escapeAll lines room cs ++ '"' :: rest).head? ≠ some '\r' := by
  cases cs with
  | nil => simp [escapeAll]
  | cons c cs =>
      by_cases hc : c = '"'
      · cases room with
        | zero => simp [hc, escapeAll]
        | succ room => simp [hc, escapeAll]
      · rw [escapeAll_cons hc, List.append_assoc]
        obtain ⟨-, hr, hn⟩ := head?_escape lines hc
          (escapeAll lines (if lines = true then 2 else 0) cs ++ '"' :: rest)
        exact ⟨fun he => hn he ▸ List.mem_cons_self, hr⟩

/-- Between two double quotes, none is written as itself. -/
theorem head?_escapeAll_zero (lines : Bool) (cs : List Char) :
    (escapeAll lines 0 cs).head? ≠ some '"' := by
  cases cs with
  | nil => exact nofun
  | cons c cs =>
      by_cases hc : c = '"'
      · rw [hc, escapeAll]
        exact nofun
      · rw [escapeAll_cons hc]
        exact (head?_escape lines hc _).1

/-- A quoted text begins with a quote. -/
theorem write_cons (cs : List Char) :
    ∃ mark written, (mark = '"' ∨ mark = '\'') ∧ write cs = mark :: written := by
  rw [write]
  cases formOf cs with
  | basic => exact ⟨'"', _, .inl rfl, rfl⟩
  | literal => exact ⟨'\'', _, .inr rfl, rfl⟩
  | basicLines => exact ⟨'"', _, .inl rfl, rfl⟩
  | literalLines => exact ⟨'\'', _, .inr rfl, rfl⟩

/-- No text between single marks looks like one between three. -/
theorem append_ne_marks {mark : Char} {written rest : List Char}
    (hwritten : written.head? ≠ some mark) (hrest : rest.head? ≠ some mark) (more : List Char) :
    written ++ mark :: rest ≠ mark :: mark :: more := by
  intro he
  cases written with
  | nil => exact hrest (congrArg List.head? (List.cons.inj he).2)
  | cons c cs => exact hwritten (congrArg some (List.cons.inj he).1)

theorem mem_of_head?_append {x mark : Char} {cs rest : List Char}
    (h : (cs ++ mark :: rest).head? = some x) (hne : x ≠ mark) : x ∈ cs := by
  cases cs with
  | nil => exact absurd (Option.some.inj h).symm hne
  | cons c cs => exact Option.some.inj h ▸ List.mem_cons_self

/-- **The written form of a text is read as the text**, up to where it ends. -/
theorem read?_write (cs : List Char) {rest : List Char} (hdouble : rest.head? ≠ some '"')
    (hsingle : rest.head? ≠ some '\'') : read? (write cs ++ rest) = some (cs, rest) := by
  rcases formOf_cases cs with h | h | ⟨h, hplain, hmark⟩ | ⟨h, hclear, hrun⟩
  · have hne := append_ne_marks (head?_escapeAll_zero false cs) hdouble
    simp only [write, h, List.append_assoc, List.cons_append, List.nil_append]
    rw [read?, readLine?, basic?_escapeAll]
    · exact fun more he => hne more (List.cons.inj he).2
    · exact nofun
  · obtain ⟨hn, hr⟩ := head?_escapeAll true 2 cs ('"' :: '"' :: rest)
    obtain ⟨after, hwritten, hafter⟩ := writeLines_append hn hr
    rw [write, h, hwritten, read?, hafter]
    exact basicLines?_escapeAll (k := 0) rfl cs hdouble
  · have hhead : cs.head? ≠ some '\'' := fun he => hmark (List.mem_of_mem_head? he)
    have hne := append_ne_marks hhead hsingle
    simp only [write, h, List.append_assoc, List.cons_append, List.nil_append]
    rw [read?, readLine?, literal?_self hplain hmark]
    · exact nofun
    · exact fun more he => hne more (List.cons.inj he).2
  · have hn : (cs ++ '\'' :: '\'' :: '\'' :: rest).head? = some '\n' → '\n' ∈ cs :=
      fun he => mem_of_head?_append he (by decide)
    have hr : (cs ++ '\'' :: '\'' :: '\'' :: rest).head? ≠ some '\r' :=
      fun he => absurd (hclear '\r' (mem_of_head?_append he (by decide))) (by decide)
    obtain ⟨after, hwritten, hafter⟩ := writeLines_append hn hr
    rw [write, h, hwritten, read?, hafter]
    exact literalLines?_self (k := 0) hclear hrun hsingle

/-- The first form that needs no escape: with no quote, with a double quote, with both, and with too
many of both, where there is none. -/
example :
    ["plain", "C:\\dir", "it's \"so\"", "'''\"\"\""].map (fun s => String.ofList (write s.toList)) =
      ["\"plain\"", "'C:\\dir'", "\"\"\"it's \"so\"\"\"\"", "\"'''\\\"\\\"\\\"\""] := by decide

end HashCalendar.Toml.Quoted
