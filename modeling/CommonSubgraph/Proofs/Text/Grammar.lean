import CommonSubgraph.Text.Field
import CommonSubgraph.Text.Numeral
import Mathlib.Data.List.Induction
import Mathlib.Data.List.TakeWhile

/-!
# Lines, fields and numerals as a grammar

How a text is put together is said here without saying how to read it: from lines and their ends
(`Lines`), a line from words with blanks around them, a number from digits (`Decimal`, `Numeral`).
What the functions of `CommonSubgraph.Text` cut out are these parts, so there is one way only in
which a text can be put together.
-/

namespace CommonSubgraph.Text

/-! ## Pieces -/

section

variable {isSep : Char → Bool} {l rest : List Char} {d : Char}

/-- One more character before pieces ends a piece of no characters, or is put to the first piece. -/
theorem consPiece_cons (c : Char) (piece : List Char) (more : List (List Char)) :
    consPiece isSep c (piece :: more) =
      if isSep c then [] :: piece :: more else (c :: piece) :: more := by
  unfold consPiece
  rfl

/-- A text without separators is one piece. -/
theorem pieces_of_not_sep (h : ∀ c ∈ l, isSep c = false) : pieces isSep l = [l] := by
  induction l with
  | nil => rfl
  | cons c l ih =>
    show consPiece isSep c (pieces isSep l) = _
    rw [ih fun d hd => h d (List.mem_cons_of_mem c hd), consPiece_cons, h c List.mem_cons_self]
    rfl

/-- What is before a separator and what is after it are cut apart from each other. -/
theorem pieces_append_sep (l : List Char) (hd : isSep d = true) :
    pieces isSep (l ++ d :: rest) = pieces isSep l ++ pieces isSep rest := by
  induction l with
  | nil =>
    show consPiece isSep d (pieces isSep rest) = [] :: pieces isSep rest
    obtain ⟨piece, more, hp⟩ := List.exists_cons_of_ne_nil (pieces_ne_nil isSep rest)
    rw [hp, consPiece_cons, if_pos hd]
  | cons c l ih =>
    show consPiece isSep c (pieces isSep (l ++ d :: rest)) =
      consPiece isSep c (pieces isSep l) ++ pieces isSep rest
    obtain ⟨piece, more, hp⟩ := List.exists_cons_of_ne_nil (pieces_ne_nil isSep l)
    rw [ih, hp, List.cons_append, consPiece_cons, consPiece_cons]
    split <;> rfl

end

/-! ## Lines -/

/-- A text of these lines: each ends at a line feed, a carriage return before which is no part of
the line, except that no line feed is needed after the last one. -/
inductive Lines : List Char → List (List Char) → Prop
  | nil : Lines [] []
  | last {l : List Char} (hl : '\n' ∉ l) (hne : l ≠ []) : Lines l [l]
  | feed {l rest : List Char} {ls : List (List Char)} (hl : '\n' ∉ l)
      (hr : l.getLast? ≠ some '\r') (h : Lines rest ls) : Lines (l ++ '\n' :: rest) (l :: ls)
  | returnFeed {l rest : List Char} {ls : List (List Char)} (hl : '\n' ∉ l)
      (h : Lines rest ls) : Lines (l ++ '\r' :: '\n' :: rest) (l :: ls)

section

variable {cs l : List Char} {ls : List (List Char)}

/-- No character of a line is a line feed. -/
theorem ne_feed_of_not_mem (hl : '\n' ∉ l) : ∀ c ∈ l, (c == '\n') = false :=
  fun _ hc => beq_eq_false_iff_ne.mpr fun he => hl (he ▸ hc)

/-- A text without line feeds is one line, unless it is empty. -/
theorem lines_of_not_mem (hl : '\n' ∉ l) (hne : l ≠ []) : lines l = [l] := by
  rw [lines, pieces_of_not_sep (ne_feed_of_not_mem hl)]
  obtain ⟨c, l, rfl⟩ := List.exists_cons_of_ne_nil hne
  rfl

/-- The first line ends with the first line feed. -/
theorem lines_append_feed (hl : '\n' ∉ l) (rest : List Char) :
    lines (l ++ '\n' :: rest) = dropReturn l :: lines rest := by
  have hpieces : pieces (fun c => c == '\n') (l ++ '\n' :: rest) =
      l :: pieces (fun c => c == '\n') rest := by
    refine (pieces_append_sep l (by decide)).trans ?_
    rw [pieces_of_not_sep (ne_feed_of_not_mem hl)]
    rfl
  have hne := pieces_ne_nil (fun c => c == '\n') rest
  rw [lines, lines, hpieces, List.dropLast_cons_of_ne_nil hne, List.getLast?_cons_of_ne_nil hne,
    List.map_cons]
  split <;> rfl

/-- A line that does not end with a carriage return is kept whole. -/
theorem dropReturn_eq_self (h : l.getLast? ≠ some '\r') : dropReturn l = l := if_neg h

/-- A carriage return at the end of a line is dropped. -/
theorem dropReturn_concat (l : List Char) : dropReturn (l ++ ['\r']) = l := by
  rw [dropReturn, if_pos List.getLast?_concat, List.dropLast_concat]

/-- A text has no other lines than those that are read. -/
theorem Lines.lines_eq (h : Lines cs ls) : lines cs = ls := by
  induction h with
  | nil => rfl
  | last hl hne => exact lines_of_not_mem hl hne
  | feed hl hr _ ih => rw [lines_append_feed hl, dropReturn_eq_self hr, ih]
  | @returnFeed l rest ls hl _ ih =>
    have hl' : '\n' ∉ l ++ ['\r'] := by simpa using hl
    rw [List.append_cons, lines_append_feed hl', dropReturn_concat, ih]

/-- The lines of a text are what it was put together from. -/
theorem lines_spec (cs : List Char) : Lines cs (lines cs) := by
  induction hn : cs.length using Nat.strongRecOn generalizing cs with
  | _ n ih =>
  by_cases hfeed : '\n' ∈ cs
  · obtain ⟨l, rest, rfl, hl⟩ := List.eq_append_cons_of_mem hfeed
    have hrest := ih rest.length (by rw [← hn]; simp; omega) rest rfl
    rw [lines_append_feed hl]
    by_cases hr : l.getLast? = some '\r'
    · obtain ⟨l, rfl⟩ := List.getLast?_eq_some_iff.mp hr
      rw [dropReturn_concat, List.append_assoc]
      exact .returnFeed (fun hm => hl (List.mem_append_left _ hm)) hrest
    · rw [dropReturn_eq_self hr]
      exact .feed hl hr hrest
  · by_cases hne : cs = []
    · subst hne
      exact .nil
    · rw [lines_of_not_mem hfeed hne]
      exact .last hfeed hne

/-- The text has these lines and no others. -/
theorem lines_eq_iff : lines cs = ls ↔ Lines cs ls :=
  ⟨fun h => h ▸ lines_spec cs, Lines.lines_eq⟩

end

/-! ## Comments -/

section

variable {mark : Char} {l : List Char}

/-- What is before the first mark. -/
theorem before_append_mark (hl : mark ∉ l) (rest : List Char) :
    before mark (l ++ mark :: rest) = l := by
  have hne : ∀ c ∈ l, (c != mark) = true := fun c hc =>
    bne_iff_ne.mpr fun he => hl (he ▸ hc)
  rw [before, List.takeWhile_append_of_pos hne, List.takeWhile_cons_of_neg (by simp),
    List.append_nil]

/-- A line without a mark is kept whole. -/
theorem before_eq_self (hl : mark ∉ l) : before mark l = l :=
  List.takeWhile_eq_self_iff.mpr fun _ hc => bne_iff_ne.mpr fun he => hl (he ▸ hc)

/-- A line is what is before its first mark, or there is a mark and something after it. -/
theorem eq_before_or (mark : Char) (l : List Char) :
    l = before mark l ∨ ∃ rest, l = before mark l ++ mark :: rest := by
  by_cases hl : mark ∈ l
  · obtain ⟨piece, rest, rfl, hpiece⟩ := List.eq_append_cons_of_mem hl
    exact .inr ⟨rest, by rw [before_append_mark hpiece]⟩
  · exact .inl (before_eq_self hl).symm

end

/-! ## Fields -/

/-- Blanks only. -/
def Blanks (cs : List Char) : Prop := ∀ c ∈ cs, isBlank c = true

/-- A word: no blanks, but something. -/
structure Word (cs : List Char) : Prop where
  ne_nil : cs ≠ []
  not_blank : ∀ c ∈ cs, isBlank c = false

section

variable {b l rest w w' : List Char} {ws : List (List Char)} {d : Char}

/-- A blank ends a field. -/
theorem fields_append_blank (l rest : List Char) (hd : isBlank d = true) :
    fields (l ++ d :: rest) = fields l ++ fields rest := by
  rw [fields, pieces_append_sep l hd, List.filter_append]
  rfl

/-- Blanks before the fields do not matter. -/
theorem fields_blanks_append (hb : Blanks b) (l : List Char) : fields (b ++ l) = fields l := by
  induction b with
  | nil => rfl
  | cons c b ih =>
    have hcons := fields_append_blank [] (b ++ l) (hb c List.mem_cons_self)
    exact hcons.trans (ih fun d hd => hb d (List.mem_cons_of_mem c hd))

/-- There are no fields among blanks. -/
theorem fields_blanks (hb : Blanks b) : fields b = [] := by
  rw [← List.append_nil b, fields_blanks_append hb]
  rfl

/-- Blanks after the fields do not matter. -/
theorem fields_append_blanks (l : List Char) (hb : Blanks b) : fields (l ++ b) = fields l := by
  cases b with
  | nil => rw [List.append_nil]
  | cons c b =>
    rw [fields_append_blank l b (hb c List.mem_cons_self),
      fields_blanks fun d hd => hb d (List.mem_cons_of_mem c hd), List.append_nil]

/-- A word is one field. -/
theorem Word.fields_eq (hw : Word w) : fields w = [w] := by
  rw [fields, pieces_of_not_sep hw.not_blank, List.filter_cons_of_pos (by simp [hw.ne_nil])]
  rfl

/-- Blanks around the fields do not matter. -/
theorem fields_trim (l : List Char) : fields (trim l) = fields l := by
  have hblanks (l : List Char) : Blanks (l.takeWhile isBlank) := fun c => List.mem_takeWhile_imp
  have hleft : fields (l.dropWhile isBlank) = fields l := by
    rw [← fields_blanks_append (hblanks l), List.takeWhile_append_dropWhile]
  have hright (m : List Char) : fields (m.reverse.dropWhile isBlank).reverse = fields m := by
    have hm : (m.reverse.dropWhile isBlank).reverse ++
        (m.reverse.takeWhile isBlank).reverse = m := by
      rw [← List.reverse_append, List.takeWhile_append_dropWhile, List.reverse_reverse]
    conv_rhs => rw [← hm]
    exact (fields_append_blanks _ fun c hc => hblanks _ c (List.mem_reverse.mp hc)).symm
  rw [trim, hright, hleft]

/-- A word is the first field if only blanks are before it and it does not go on. -/
theorem fields_word (hb : Blanks b) (hw : Word w) (hrest : ∀ d ∈ rest.head?, isBlank d = true) :
    fields (b ++ w ++ rest) = w :: fields rest := by
  cases rest with
  | nil => rw [List.append_nil, fields_blanks_append hb, hw.fields_eq]; rfl
  | cons d rest =>
    have hd := hrest d rfl
    have hcons := fields_append_blank [] rest hd
    rw [fields_append_blank _ rest hd, fields_blanks_append hb, hw.fields_eq]
    exact congrArg (w :: ·) hcons.symm

/-- A line begins with the longest run of characters of any kind. -/
theorem exists_run (p : Char → Bool) (l : List Char) : ∃ run rest, l = run ++ rest ∧
    (∀ c ∈ run, p c = true) ∧ ∀ d ∈ rest.head?, p d = false := by
  refine ⟨l.takeWhile p, l.dropWhile p, List.takeWhile_append_dropWhile.symm,
    fun c => List.mem_takeWhile_imp, fun d hd => ?_⟩
  have hnot := List.head?_dropWhile_not p l
  rwa [Option.mem_def.mp hd] at hnot

/-- A text that is not blank begins with a word, up to blanks before it. -/
theorem exists_word (hl : ¬ Blanks l) : ∃ b w rest, l = b ++ w ++ rest ∧ Blanks b ∧ Word w ∧
    ∀ d ∈ rest.head?, isBlank d = true := by
  obtain ⟨b, m, rfl, hb, hm⟩ := exists_run isBlank l
  obtain ⟨w, rest, rfl, hw, hrest⟩ := exists_run (fun c => !isBlank c) m
  refine ⟨b, w, rest, (List.append_assoc b w rest).symm, hb, ⟨?_, fun c hc => ?_⟩, fun d hd => ?_⟩
  · rintro rfl
    cases rest with
    | nil => exact hl fun c hc => hb c (by simpa using hc)
    | cons d rest =>
      have hblank := hrest d rfl
      rw [hm d rfl] at hblank
      cases hblank
  · simpa using hw c hc
  · simpa using hrest d hd

/-- A text has no fields if and only if it is blank. -/
theorem fields_eq_nil_iff : fields l = [] ↔ Blanks l := by
  refine ⟨fun h => by_contra fun hl => ?_, fields_blanks⟩
  obtain ⟨b, w, rest, rfl, hb, hw, hrest⟩ := exists_word hl
  rw [fields_word hb hw hrest] at h
  cases h

/-- What a text with a field looks like. -/
theorem exists_of_fields_eq_cons (h : fields l = w :: ws) : ∃ b rest, l = b ++ w ++ rest ∧
    Blanks b ∧ Word w ∧ (∀ d ∈ rest.head?, isBlank d = true) ∧ fields rest = ws := by
  have hl : ¬ Blanks l := fun hl => by
    rw [fields_blanks hl] at h
    cases h
  obtain ⟨b, w', rest, rfl, hb, hw, hrest⟩ := exists_word hl
  rw [fields_word hb hw hrest] at h
  obtain ⟨rfl, hws⟩ := List.cons.inj h
  exact ⟨b, rest, rfl, hb, hw, hrest, hws⟩

/-- A text has two fields if and only if it is two words, with blanks between them, and perhaps
before and after them. -/
theorem fields_eq_pair_iff : fields l = [w, w'] ↔ ∃ b₁ b₂ b₃, l = b₁ ++ w ++ (b₂ ++ w' ++ b₃) ∧
    Word w ∧ Word w' ∧ Blanks b₁ ∧ Blanks b₂ ∧ b₂ ≠ [] ∧ Blanks b₃ := by
  constructor
  · intro h
    obtain ⟨b₁, rest, rfl, hb₁, hw, hapart, hrest⟩ := exists_of_fields_eq_cons h
    obtain ⟨b₂, b₃, rfl, hb₂, hw', -, hb₃⟩ := exists_of_fields_eq_cons hrest
    refine ⟨b₁, b₂, b₃, rfl, hw, hw', hb₁, hb₂, ?_, fields_eq_nil_iff.mp hb₃⟩
    rintro rfl
    obtain ⟨c, w', rfl⟩ := List.exists_cons_of_ne_nil hw'.ne_nil
    have hblank := hapart c rfl
    rw [hw'.not_blank c List.mem_cons_self] at hblank
    cases hblank
  · rintro ⟨b₁, b₂, b₃, rfl, hw, hw', hb₁, hb₂, hne, hb₃⟩
    obtain ⟨c, b₂, rfl⟩ := List.exists_cons_of_ne_nil hne
    rw [fields_word hb₁ hw fun d hd => ?_, fields_word hb₂ hw' fun d hd => ?_, fields_blanks hb₃]
    · exact hb₃ d (List.mem_of_mem_head? hd)
    · cases hd
      exact hb₂ c List.mem_cons_self

end

/-! ## Numerals -/

/-- A row of decimal digits and its number. -/
inductive Decimal : List Char → Nat → Prop
  | digit {d : Nat} (hd : d < 10) : Decimal [d.digitChar] d
  | snoc {cs : List Char} {n d : Nat} (h : Decimal cs n) (hd : d < 10) :
      Decimal (cs ++ [d.digitChar]) (10 * n + d)

/-- A decimal number that fits a word of 64 bits, with or without a plus sign. -/
inductive Numeral : List Char → Nat → Prop
  | plain {cs : List Char} {n : Nat} (h : Decimal cs n) (hn : n < UInt64.size) : Numeral cs n
  | plus {cs : List Char} {n : Nat} (h : Decimal cs n) (hn : n < UInt64.size) :
      Numeral ('+' :: cs) n

section

variable {cs : List Char} {c : Char} {n d : Nat}

theorem isDigit_digitChar (hd : d < 10) : d.digitChar.isDigit = true := by
  revert d
  decide

theorem isBlank_digitChar (hd : d < 10) : isBlank d.digitChar = false := by
  revert d
  decide

theorem toNat_digitChar (hd : d < 10) : d.digitChar.toNat = '0'.toNat + d := by
  revert d
  decide

/-- Every digit is the character of a number below ten. -/
theorem exists_digitChar (h : c.isDigit = true) : ∃ d < 10, c = d.digitChar := by
  obtain ⟨hlo, hhi⟩ : '0'.toNat ≤ c.toNat ∧ c.toNat ≤ '9'.toNat := by
    simpa [Char.isDigit, UInt32.le_iff_toNat_le] using h
  have hnine : '9'.toNat = '0'.toNat + 9 := rfl
  refine ⟨c.toNat - '0'.toNat, by omega, Char.toNat_inj.mp ?_⟩
  rw [toNat_digitChar (by omega)]
  omega

/-- One more digit makes ten times the number, and the digit. -/
theorem digitsValue_concat (cs : List Char) (hd : d < 10) :
    digitsValue (cs ++ [d.digitChar]) = 10 * digitsValue cs + d := by
  rw [digitsValue, List.foldl_append, List.foldl_cons, toNat_digitChar hd, Nat.add_sub_cancel_left]
  rfl

/-- A number has a digit. -/
theorem Decimal.ne_nil (h : Decimal cs n) : cs ≠ [] := by
  cases h with
  | digit _ => exact List.cons_ne_nil _ _
  | snoc _ _ => exact List.append_ne_nil_of_right_ne_nil _ (List.cons_ne_nil _ _)

/-- A number has nothing but digits. -/
theorem Decimal.isDigit (h : Decimal cs n) : ∀ c ∈ cs, c.isDigit = true := by
  induction h with
  | digit hd => exact List.forall_mem_singleton.mpr (isDigit_digitChar hd)
  | snoc _ hd ih =>
    exact List.forall_mem_append.mpr ⟨ih, List.forall_mem_singleton.mpr (isDigit_digitChar hd)⟩

/-- The value of a row of digits is its number. -/
theorem Decimal.digitsValue_eq (h : Decimal cs n) : digitsValue cs = n := by
  induction h with
  | digit hd => exact (digitsValue_concat [] hd).trans (Nat.zero_add _)
  | snoc _ hd ih => rw [digitsValue_concat _ hd, ih]

/-- A row of digits is a number, and its value is that number. -/
theorem decimal_digitsValue (hne : cs ≠ []) (hall : ∀ c ∈ cs, c.isDigit = true) :
    Decimal cs (digitsValue cs) := by
  induction cs using List.reverseRecOn with
  | nil => exact absurd rfl hne
  | append_singleton cs c ih =>
    obtain ⟨hcs, hc⟩ := List.forall_mem_append.mp hall
    obtain ⟨d, hd, rfl⟩ := exists_digitChar (hc c List.mem_cons_self)
    rw [digitsValue_concat cs hd]
    by_cases hnil : cs = []
    · subst hnil
      rw [show 10 * digitsValue [] + d = d from Nat.zero_add d]
      exact .digit hd
    · exact .snoc (ih hnil hcs) hd

/-- A decimal number is a row of digits that is not empty, with its value. -/
theorem decimal_iff : Decimal cs n ↔
    cs ≠ [] ∧ (∀ c ∈ cs, c.isDigit = true) ∧ digitsValue cs = n := by
  constructor
  · exact fun h => ⟨h.ne_nil, h.isDigit, h.digitsValue_eq⟩
  · rintro ⟨hne, hall, rfl⟩
    exact decimal_digitsValue hne hall

/-- Digits alone have no sign. -/
theorem unsigned_eq_self (h : ∀ c ∈ cs, c.isDigit = true) : unsigned cs = cs := by
  unfold unsigned
  split
  · exact absurd (h '+' List.mem_cons_self) (by decide)
  · rfl

theorem le_largest_iff : n ≤ Size.largest ↔ n < UInt64.size := Nat.le_iff_lt_add_one

/-- A numeral is a decimal number after its sign, and no larger than a word can hold. -/
theorem numeral_iff : Numeral cs n ↔ Decimal (unsigned cs) n ∧ n ≤ Size.largest := by
  rw [le_largest_iff]
  constructor
  · rintro (⟨h, hn⟩ | ⟨h, hn⟩)
    · exact ⟨(unsigned_eq_self h.isDigit).symm ▸ h, hn⟩
    · exact ⟨h, hn⟩
  · rintro ⟨h, hn⟩
    unfold unsigned at h
    split at h
    · exact .plus h hn
    · exact .plain h hn

/-- What is read as a number is a numeral, and every numeral is read. -/
theorem numeral?_eq_some_iff : numeral? cs = some n ↔ Numeral cs n := by
  have hdigits : ((unsigned cs).isEmpty || !(unsigned cs).all Char.isDigit) = true ↔
      ¬ (unsigned cs ≠ [] ∧ ∀ c ∈ unsigned cs, c.isDigit = true) := by
    simp [or_iff_not_imp_left]
  rw [numeral_iff, decimal_iff, numeral?]
  split
  · next h => exact ⟨nofun, fun hn => absurd ⟨hn.1.1, hn.1.2.1⟩ (hdigits.mp h)⟩
  · next h =>
    have hok := not_not.mp (mt hdigits.mpr h)
    show (if digitsValue (unsigned cs) ≤ Size.largest then some (digitsValue (unsigned cs))
      else none) = some n ↔ _
    split
    · next hn =>
      rw [Option.some_inj]
      exact ⟨fun h => ⟨⟨hok.1, hok.2, h⟩, h ▸ hn⟩, fun h => h.1.2.2⟩
    · next hn => exact ⟨nofun, fun h => absurd (h.1.2.2 ▸ h.2) hn⟩

/-- A numeral has no characters but a plus sign and digits. -/
theorem Numeral.mem (h : Numeral cs n) (hc : c ∈ cs) : c = '+' ∨ c.isDigit = true := by
  cases h with
  | plain h _ => exact .inr (h.isDigit c hc)
  | plus h _ => exact (List.mem_cons.mp hc).imp_right (h.isDigit c)

/-- A numeral is a word. -/
theorem Numeral.word (h : Numeral cs n) : Word cs where
  ne_nil := by
    cases h with
    | plain h _ => exact h.ne_nil
    | plus h _ => exact List.cons_ne_nil _ _
  not_blank c hc := by
    obtain rfl | hc := h.mem hc
    · decide
    · obtain ⟨d, hd, rfl⟩ := exists_digitChar hc
      exact isBlank_digitChar hd

end

end CommonSubgraph.Text
