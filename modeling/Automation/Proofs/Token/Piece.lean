import Automation.Proofs.Token.Lexeme
import Mathlib

/-!
# Cutting off a piece

Every piece that is cut off a text is a lexeme, or a blank, a comment or a character that starts
nothing: `isPiece_piece`. The other way round, a lexeme that is followed by a blank, or by nothing,
is cut off as a whole: `piece_of_spells`. Each is put together from one lemma for each class of
characters that a piece can start with.
-/
namespace Automation.Token

/-! ### Classes of characters -/

/-- The visible characters of ASCII are no blanks. -/
theorem not_isBlank_of_visible {c : Char} (low : 0x21 ≤ c.toNat) (high : c.toNat ≤ 0x7e) :
    ¬ Text.isBlank c := by
  intro h
  simp only [Text.isBlank, Text.blankRanges, List.any_cons, List.any_nil, Bool.or_false,
    Bool.or_eq_true, Bool.and_eq_true, decide_eq_true_eq] at h
  omega

theorem toNat_of_isDigit {c : Char} (h : c.isDigit) : 48 ≤ c.toNat ∧ c.toNat ≤ 57 := by
  simp only [Char.isDigit, Bool.and_eq_true, decide_eq_true_eq, UInt32.le_iff_toNat_le, ge_iff_le]
    at h
  exact h

theorem toNat_of_isAlpha {c : Char} (h : c.isAlpha) :
    65 ≤ c.toNat ∧ c.toNat ≤ 90 ∨ 97 ≤ c.toNat ∧ c.toNat ≤ 122 := by
  simp only [Char.isAlpha, Char.isUpper, Char.isLower, Bool.or_eq_true, Bool.and_eq_true,
    decide_eq_true_eq, UInt32.le_iff_toNat_le, ge_iff_le] at h
  exact h

theorem ne_of_isDigit {c d : Char} (h : c.isDigit) (hd : ¬ d.isDigit) : c ≠ d := by
  intro he
  subst he
  exact hd h

theorem symbolChars_visible :
    ∀ c ∈ symbolChars, 0x21 ≤ c.toNat ∧ c.toNat ≤ 0x7e ∧ c ≠ '#' ∧ c ≠ '\'' ∧ c ≠ '"' ∧
      c.isDigit = false ∧ c.isAlpha = false ∧ c ≠ '_' := by
  have h : symbolChars.all fun c => 0x21 ≤ c.toNat ∧ c.toNat ≤ 0x7e ∧ c ≠ '#' ∧ c ≠ '\'' ∧ c ≠ '"' ∧
      c.isDigit = false ∧ c.isAlpha = false ∧ c ≠ '_' := by decide
  exact fun c hc => of_decide_eq_true (List.all_eq_true.mp h c hc)

/-! ### The piece that starts with a character of each class -/

theorem piece_blank {c : Char} (h : Text.isBlank c) (rest : List Char) :
    piece c rest = ⟨0, none⟩ := by
  unfold piece
  rw [if_pos h]

theorem piece_comment {c : Char} {rest : List Char} (h : startsComment c rest) :
    piece c rest = ⟨(rest.takeWhile (· != '\n')).length, none⟩ := by
  have hc : ¬ Text.isBlank c := by
    simp only [startsComment, Bool.or_eq_true, beq_iff_eq, Bool.and_eq_true] at h
    rcases h with h | ⟨h, -⟩ <;> subst h <;> decide
  unfold piece
  rw [if_neg hc, if_pos h]

theorem piece_quote (quote : Quote) (rest : List Char) :
    piece quote.char rest = ⟨(stringBody quote.char rest).2,
      some (.string, String.ofList (stringBody quote.char rest).1)⟩ := by
  cases quote <;> rfl

theorem piece_digit {c : Char} (h : c.isDigit) (rest : List Char) :
    piece c rest = ⟨(numeral (c :: rest)).length - 1,
      some (.number, String.ofList (numeral (c :: rest)))⟩ := by
  have hvisible := toNat_of_isDigit h
  have hb : ¬ Text.isBlank c := not_isBlank_of_visible (by omega) (by omega)
  have hs : c ≠ '/' := ne_of_isDigit h (by decide)
  have hh : c ≠ '#' := ne_of_isDigit h (by decide)
  have hq : c ≠ '\'' := ne_of_isDigit h (by decide)
  have hd : c ≠ '"' := ne_of_isDigit h (by decide)
  unfold piece
  simp [hb, startsComment, hs, hh, hq, hd, h]

theorem piece_symbol {c : Char} {rest : List Char} (h : c ∈ symbolChars)
    (hc : startsComment c rest = false) : piece c rest = operatorPiece c rest := by
  obtain ⟨low, high, -, hq, hd, hn, -, -⟩ := symbolChars_visible c h
  have hb : ¬ Text.isBlank c := not_isBlank_of_visible low high
  unfold piece
  simp [hb, hc, hq, hd, hn, h]

theorem piece_word {c : Char} (h : c.isAlpha ∨ c = '_') (rest : List Char) :
    piece c rest = ⟨(rest.takeWhile isWordChar).length,
      some (wordKind (String.ofList (c :: rest.takeWhile isWordChar)),
        String.ofList (c :: rest.takeWhile isWordChar))⟩ := by
  have hw : isWordStart c := by simpa [isWordStart] using h
  have hvisible : 65 ≤ c.toNat ∧ c.toNat ≤ 122 := by
    rcases h with h | h
    · have hc := toNat_of_isAlpha h
      omega
    · subst h
      decide
  have hb : ¬ Text.isBlank c := not_isBlank_of_visible (by omega) (by omega)
  have hne : ∀ d : Char, d.toNat < 65 → c ≠ d := by
    intro d hd he
    subst he
    omega
  have hd : c.isDigit = false := by
    by_contra hd
    have hc := toNat_of_isDigit (by simpa using hd)
    omega
  have hs : c ∉ symbolChars := by
    intro hs
    obtain ⟨-, -, -, -, -, -, ha, hu⟩ := symbolChars_visible c hs
    rcases h with h | h
    · rw [h] at ha
      cases ha
    · exact hu h
  unfold piece
  simp [hb, startsComment, hne '/' (by decide), hne '#' (by decide), hne '\'' (by decide),
    hne '"' (by decide), hd, hs, hw]

theorem piece_stray {c : Char} (h : StartsNothing c) (rest : List Char) :
    piece c rest = ⟨0, none⟩ := by
  have hs : c ≠ '/' := by
    intro he
    subst he
    exact h.symbol (by decide)
  have hw : isWordStart c = false := by simpa [isWordStart] using h.word
  have hd : c.isDigit = false := by simpa using h.digit
  unfold piece
  simp [h.blank, startsComment, hs, h.comment, hd, h.symbol, hw,
    show c ≠ '\'' from h.quote .single, show c ≠ '"' from h.quote .double]

/-! ### Runs of one class -/

/-- Nothing follows, or a blank does. -/
def Ends (later : List Char) : Prop := ∀ c ∈ later.head?, Text.isBlank c

theorem not_isDigit_of_isBlank {c : Char} (h : Text.isBlank c) : c.isDigit = false := by
  by_contra hd
  have hc := toNat_of_isDigit (by simpa using hd)
  exact not_isBlank_of_visible (by omega) (by omega) h

theorem not_isWordChar_of_isBlank {c : Char} (h : Text.isBlank c) : isWordChar c = false := by
  by_contra hw
  simp only [isWordChar, Char.isAlphanum, Bool.not_eq_false, Bool.or_eq_true, beq_iff_eq] at hw
  have hvisible : 0x21 ≤ c.toNat ∧ c.toNat ≤ 0x7e := by
    rcases hw with ((hw | hw) | hw) | hw
    · have hc := toNat_of_isAlpha hw
      omega
    · have hc := toNat_of_isDigit hw
      omega
    · subst hw
      decide
    · subst hw
      decide
  exact not_isBlank_of_visible hvisible.1 hvisible.2 h

theorem Ends.head_ne {later : List Char} (h : Ends later) {d : Char} (hd : ¬ Text.isBlank d)
    (more : List Char) : later ≠ d :: more := by
  intro he
  rw [he] at h
  exact hd (h d rfl)

section Runs

variable {p : Char → Bool}

theorem Ends.takeWhile_eq_nil {later : List Char} (h : Ends later)
    (hp : ∀ c, Text.isBlank c → p c = false) : later.takeWhile p = [] := by
  cases later with
  | nil => rfl
  | cons c more => exact List.takeWhile_cons_of_neg (by simp [hp c (h c rfl)])

/-- A run that ends is taken as a whole. -/
theorem takeWhile_append_ends {chars later : List Char} (hc : ∀ c ∈ chars, p c) (h : Ends later)
    (hp : ∀ c, Text.isBlank c → p c = false) : (chars ++ later).takeWhile p = chars := by
  rw [List.takeWhile_append_of_pos hc, h.takeWhile_eq_nil hp, List.append_nil]

theorem dropWhile_append_neg {chars later : List Char} (hc : ∀ c ∈ chars, p c)
    (h : ∀ c ∈ later.head?, p c = false) : (chars ++ later).dropWhile p = later := by
  rw [List.dropWhile_append_of_pos hc]
  cases later with
  | nil => rfl
  | cons c more => exact List.dropWhile_cons_of_neg (by simp [h c rfl])

theorem mem_takeWhile {chars : List Char} {c : Char} (h : c ∈ chars.takeWhile p) : p c :=
  List.all_eq_true.mp List.all_takeWhile c h

theorem take_length_takeWhile (p : Char → Bool) (chars : List Char) :
    chars.take (chars.takeWhile p).length = chars.takeWhile p := by
  have h := @List.take_left _ (chars.takeWhile p) (chars.dropWhile p)
  rwa [List.takeWhile_append_dropWhile] at h

theorem drop_length_takeWhile (p : Char → Bool) (chars : List Char) :
    chars.drop (chars.takeWhile p).length = chars.dropWhile p := by
  have h := @List.drop_left _ (chars.takeWhile p) (chars.dropWhile p)
  rwa [List.takeWhile_append_dropWhile] at h

end Runs

/-! ### Numerals -/

theorem IsDigits.takeWhile {c : Char} (h : c.isDigit) (rest : List Char) :
    IsDigits ((c :: rest).takeWhile Char.isDigit) := by
  constructor
  · rw [List.takeWhile_cons_of_pos h]
    exact List.cons_ne_nil _ _
  · intro d hd
    exact mem_takeWhile hd

theorem numeral_of_digits {digits later : List Char} (h : IsDigits digits) (he : Ends later) :
    numeral (digits ++ later) = digits := by
  have hblank : ∀ c, Text.isBlank c → c.isDigit = false := fun c => not_isDigit_of_isBlank
  have htake := takeWhile_append_ends h.2 he hblank
  have hdrop := dropWhile_append_neg h.2 fun c hc => hblank c (he c hc)
  unfold numeral
  simp only [htake, hdrop]
  split
  · next _ d more => exact absurd rfl (he.head_ne (by decide) (d :: more))
  · rfl

theorem numeral_of_decimal {whole fraction later : List Char} (hw : IsDigits whole)
    (hf : IsDigits fraction) (he : Ends later) :
    numeral (whole ++ '.' :: (fraction ++ later)) = whole ++ '.' :: fraction := by
  have hpoint : ∀ c ∈ ('.' :: (fraction ++ later)).head?, c.isDigit = false := by
    intro c hc
    obtain rfl : '.' = c := Option.some.inj hc
    rfl
  have hdrop := dropWhile_append_neg hw.2 hpoint
  have htake : (whole ++ '.' :: (fraction ++ later)).takeWhile Char.isDigit = whole := by
    rw [List.takeWhile_append_of_pos hw.2, List.takeWhile_cons_of_neg (by decide), List.append_nil]
  obtain ⟨d, more, rfl⟩ := List.exists_cons_of_ne_nil hf.1
  obtain ⟨hd, hm⟩ := List.forall_mem_cons.mp hf.2
  have hmore := takeWhile_append_ends hm he fun c => not_isDigit_of_isBlank
  unfold numeral
  rw [htake, hdrop]
  simp only [List.cons_append, hd, hmore, ↓reduceIte]

theorem numeral_append {chars later : List Char} (h : IsNumeral chars) (he : Ends later) :
    numeral (chars ++ later) = chars := by
  cases h with
  | whole h => exact numeral_of_digits h he
  | decimal hw hf =>
    rw [List.append_assoc, List.cons_append]
    exact numeral_of_decimal hw hf he

theorem IsNumeral.ne_nil {chars : List Char} (h : IsNumeral chars) : chars ≠ [] := by
  cases h with
  | whole h => exact h.1
  | decimal hw hf => exact List.append_ne_nil_of_left_ne_nil hw.1 _

theorem IsNumeral.head {c : Char} {chars : List Char} (h : IsNumeral (c :: chars)) : c.isDigit := by
  generalize hall : c :: chars = all at h
  cases h with
  | whole h => exact h.2 c (hall ▸ List.mem_cons_self)
  | @decimal whole fraction hw hf =>
    obtain ⟨d, more, rfl⟩ := List.exists_cons_of_ne_nil hw.1
    obtain ⟨rfl, -⟩ := List.cons.inj hall
    exact hw.2 c List.mem_cons_self

theorem IsNumeral.spells {chars : List Char} (h : IsNumeral chars) :
    Spells .number (String.ofList chars) chars := by
  have hs := String.toList_ofList (l := chars)
  have hw := Spells.plain (by decide) (WellFormed.number (hs.symm ▸ h))
  rwa [hs] at hw

/-- A numeral is cut off where a digit stands. -/
theorem isNumeral_numeral {c : Char} (h : c.isDigit) (rest : List Char) :
    IsNumeral (numeral (c :: rest)) ∧ ∃ later, c :: rest = numeral (c :: rest) ++ later := by
  have hw := IsDigits.takeWhile h rest
  have hsplit := (@List.takeWhile_append_dropWhile _ Char.isDigit (c :: rest)).symm
  unfold numeral
  simp only
  split
  · next d more hdrop =>
    rw [hdrop] at hsplit
    split
    · next hd =>
      have hf : IsDigits (d :: more.takeWhile Char.isDigit) := by
        have := IsDigits.takeWhile hd more
        rwa [List.takeWhile_cons_of_pos hd] at this
      refine ⟨.decimal hw hf, more.dropWhile Char.isDigit, ?_⟩
      rw [List.append_assoc, List.cons_append, List.cons_append, List.takeWhile_append_dropWhile]
      exact hsplit
    · exact ⟨.whole hw, _, hsplit⟩
  · exact ⟨.whole hw, _, hsplit⟩

/-! ### Strings -/

/-- A body that reads to its closing quote. -/
theorem stringBody_of_unescapes {quote : Quote} {body value : List Char}
    (h : Unescapes quote body value) (later : List Char) :
    stringBody quote.char (body ++ quote.char :: later) = (value, body.length + 1) := by
  have hq : quote.char ≠ '\\' := by cases quote <;> decide
  induction h with
  | nil =>
    rw [List.nil_append, stringBody.eq_def]
    simp [hq]
  | escaped c h ih =>
    rw [List.cons_append, List.cons_append, stringBody, ih]
    rfl
  | plain hb hc h ih =>
    rw [List.cons_append, stringBody.eq_def]
    simp [hb, hc, ih]

/-- What a string takes of the characters after its opening quote, and what that says: it ends with
the closing quote, or it takes all. -/
inductive Takes (quote : Quote) : List Char → List Char → Nat → Prop
  | closed {body value : List Char} (later : List Char) (h : Unescapes quote body value) :
      Takes quote (body ++ quote.char :: later) value (body.length + 1)
  | unclosed {body value last : List Char} (h : Unescapes quote body value)
      (hl : last = [] ∨ last = ['\\']) : Takes quote (body ++ last) value (body ++ last).length

theorem Takes.escaped {quote : Quote} {chars value : List Char} {count : Nat} (c : Char)
    (h : Takes quote chars value count) :
    Takes quote ('\\' :: c :: chars) (c :: value) (count + 2) := by
  cases h with
  | closed later h => exact .closed later (h.escaped c)
  | unclosed h hl => exact .unclosed (h.escaped c) hl

theorem Takes.plain {quote : Quote} {chars value : List Char} {count : Nat} {c : Char}
    (hb : c ≠ '\\') (hq : c ≠ quote.char) (h : Takes quote chars value count) :
    Takes quote (c :: chars) (c :: value) (count + 1) := by
  cases h with
  | closed later h => exact .closed later (.plain hb hq h)
  | unclosed h hl => exact .unclosed (.plain hb hq h) hl

theorem takes_stringBody (quote : Quote) (chars : List Char) :
    Takes quote chars (stringBody quote.char chars).1 (stringBody quote.char chars).2 := by
  fun_induction stringBody quote.char chars with
  | case1 => exact .unclosed .nil (Or.inl rfl)
  | case2 => exact .unclosed .nil (Or.inr rfl)
  | case3 c rest value count he ih =>
    rw [he] at ih
    exact ih.escaped c
  | case4 c rest _ _ hc =>
    obtain rfl : c = quote.char := by simpa using hc
    exact .closed rest .nil
  | case5 c rest hlone hescaped hc value count he ih =>
    have hb : c ≠ '\\' := by
      intro hb
      cases rest with
      | nil => exact hlone hb rfl
      | cons d more => exact hescaped d more hb rfl
    rw [he] at ih
    exact ih.plain hb (by simpa using hc)

/-! ### Operators and symbols -/

theorem operatorKind_of_mem {lexeme : String} (h : lexeme ∈ operators) :
    operatorKind lexeme = .operator := by simp [operatorKind, h]

theorem operatorKind_of_notMem {lexeme : String} (h : lexeme ∉ operators) :
    operatorKind lexeme = .symbol := by simp [operatorKind, h]

theorem mem_operators_of_long : ∀ value ∈ longOperators, value ∈ operators := by decide

/-- The piece that starts with an operator or a symbol is one. -/
theorem operatorPiece_spells {c : Char} (h : c ∈ symbolChars) (rest : List Char) :
    ∃ kind value, (operatorPiece c rest).lexeme = some (kind, value) ∧
      Spells kind value (c :: rest.take (operatorPiece c rest).extra) := by
  have hlexeme : ∀ chars, (String.ofList chars ∈ operators ∨ chars = [c]) →
      Spells (operatorKind (String.ofList chars)) (String.ofList chars) chars := by
    intro chars hchars
    have hs := String.toList_ofList (l := chars)
    by_cases ho : String.ofList chars ∈ operators
    · have hw := Spells.plain (by decide) (WellFormed.operator ho)
      rwa [hs, ← operatorKind_of_mem ho] at hw
    · obtain rfl := hchars.resolve_left ho
      have hw := Spells.plain (by decide) (WellFormed.symbol h ho)
      rwa [hs, ← operatorKind_of_notMem ho] at hw
  unfold operatorPiece
  split
  · next d more =>
    split
    · next hl =>
      have hl : String.ofList [c, d] ∈ longOperators := by simpa using hl
      exact ⟨_, _, rfl, hlexeme [c, d] (Or.inl (mem_operators_of_long _ hl))⟩
    · exact ⟨_, _, rfl, hlexeme [c] (Or.inr rfl)⟩
  · exact ⟨_, _, rfl, hlexeme [c] (Or.inr rfl)⟩

theorem operators_one_or_two : ∀ value ∈ operators,
    value ∈ longOperators ∨ ∃ c ∈ symbolChars, value = String.ofList [c] := by
  have h : operators.all fun value => longOperators.contains value ||
      symbolChars.any fun c => value == String.ofList [c] := by decide
  intro value hvalue
  simpa using List.all_eq_true.mp h value hvalue

theorem longOperators_two : ∀ value ∈ longOperators,
    ∃ c ∈ symbolChars, c ≠ '/' ∧ value = String.ofList [c, '='] := by
  have h : longOperators.all fun value =>
      symbolChars.any fun c => c != '/' && value == String.ofList [c, '='] := by decide
  intro value hvalue
  simpa using List.all_eq_true.mp h value hvalue

theorem startsComment_eq_false {c : Char} {rest : List Char} (hh : c ≠ '#')
    (hs : c = '/' → rest.head? ≠ some '/') : startsComment c rest = false := by
  by_cases hc : c = '/'
  · simp [startsComment, hh, hs hc]
  · simp [startsComment, hh, hc]

/-- An operator or a symbol of one character that is followed by a blank, or by nothing. -/
theorem piece_single {c : Char} {later : List Char} (h : c ∈ symbolChars) (he : Ends later) :
    piece c later = ⟨0, some (operatorKind (String.ofList [c]), String.ofList [c])⟩ := by
  have hh : c ≠ '#' := (symbolChars_visible c h).2.2.1
  have hs : startsComment c later = false := by
    apply startsComment_eq_false hh
    intro _ hl
    exact absurd (he '/' hl) (by decide)
  rw [piece_symbol h hs]
  cases later with
  | nil => rfl
  | cons d more =>
    have hn : String.ofList [c, d] ∉ longOperators := by
      intro hl
      obtain ⟨a, -, -, hv⟩ := longOperators_two _ hl
      have hcd : [c, d] = [a, '='] := String.ofList_injective hv
      obtain ⟨-, rfl⟩ : c = a ∧ d = '=' := by simpa using hcd
      exact absurd (he '=' rfl) (by decide)
    unfold operatorPiece
    exact if_neg fun hc => hn (List.contains_iff_mem.mp hc)

/-- An operator of two characters, whatever follows it. -/
theorem piece_long {c : Char} (h : c ∈ symbolChars) (hs : c ≠ '/')
    (hl : String.ofList [c, '='] ∈ longOperators) (later : List Char) :
    piece c ('=' :: later) = ⟨1, some (.operator, String.ofList [c, '='])⟩ := by
  have hh : c ≠ '#' := (symbolChars_visible c h).2.2.1
  have hk := operatorKind_of_mem (mem_operators_of_long _ hl)
  rw [piece_symbol h (startsComment_eq_false hh fun hc => absurd hc hs), ← hk]
  unfold operatorPiece
  exact if_pos (List.contains_iff_mem.mpr hl)

/-! ### Words -/

theorem wordKind_of_mem {word : String} (h : word ∈ keywords) : wordKind word = .keyword := by
  simp [wordKind, h]

theorem wordKind_of_notMem {word : String} (h : word ∉ keywords) : wordKind word = .identifier := by
  simp [wordKind, h]

/-- A word that is followed by a blank, or by nothing. -/
theorem piece_wholeWord {c : Char} {more later : List Char} (h : IsWord (c :: more))
    (he : Ends later) :
    piece c (more ++ later) =
      ⟨more.length, some (wordKind (String.ofList (c :: more)), String.ofList (c :: more))⟩ := by
  cases h with
  | mk starts goes =>
    have hmore : ∀ d ∈ more, isWordChar d := by
      intro d hd
      simpa [isWordChar, or_assoc] using goes d hd
    have htake := takeWhile_append_ends hmore he fun d => not_isWordChar_of_isBlank
    rw [piece_word starts, htake]

theorem wordKind_spells {c : Char} {more : List Char} (h : IsWord (c :: more)) :
    Spells (wordKind (String.ofList (c :: more))) (String.ofList (c :: more)) (c :: more) := by
  have hs := String.toList_ofList (l := c :: more)
  by_cases hk : String.ofList (c :: more) ∈ keywords
  · have hw := Spells.plain (by decide) (WellFormed.keyword (hs.symm ▸ h) hk)
    rwa [hs, ← wordKind_of_mem hk] at hw
  · have hw := Spells.plain (by decide) (WellFormed.identifier (hs.symm ▸ h) hk)
    rwa [hs, ← wordKind_of_notMem hk] at hw

/-! ### All classes together -/

/-- A lexeme that is followed by a blank, or by nothing, is cut off as a whole. -/
theorem piece_of_spells {kind : Kind} {value : String} {c : Char} {chars later : List Char}
    (h : Spells kind value (c :: chars)) (he : Ends later) :
    piece c (chars ++ later) = ⟨chars.length, some (kind, value)⟩ := by
  generalize hall : c :: chars = all at h
  cases h with
  | @string quote body value h =>
    obtain ⟨rfl, rfl⟩ := List.cons.inj hall
    rw [List.append_assoc, List.singleton_append, piece_quote, stringBody_of_unescapes h]
    simp
  | plain hk h =>
    have hv : value = String.ofList (c :: chars) := by rw [hall, String.ofList_toList]
    cases h with
    | string => exact absurd rfl hk
    | number h =>
      rw [← hall] at h
      have hn := numeral_append h he
      rw [piece_digit h.head, ← List.cons_append, hn, hv]
      simp
    | operator h =>
      rcases operators_one_or_two _ h with hl | ⟨a, ha, hone⟩
      · obtain ⟨a, ha, hs, htwo⟩ := longOperators_two _ hl
        obtain ⟨rfl, rfl⟩ : c = a ∧ chars = ['='] := by
          simpa using String.ofList_injective (hv.symm.trans htwo)
        rw [htwo] at hl ⊢
        exact piece_long ha hs hl later
      · obtain ⟨rfl, rfl⟩ : c = a ∧ chars = [] := by
          simpa using String.ofList_injective (hv.symm.trans hone)
        rw [hone] at h ⊢
        rw [← operatorKind_of_mem h]
        exact piece_single ha he
    | @symbol a ha h =>
      obtain ⟨rfl, rfl⟩ : c = a ∧ chars = [] := by
        simpa using String.ofList_injective hv.symm
      rw [← operatorKind_of_notMem h]
      exact piece_single ha he
    | keyword hw h =>
      rw [← hall] at hw
      rw [piece_wholeWord hw he, ← hv, wordKind_of_mem h]
    | identifier hw h =>
      rw [← hall] at hw
      rw [piece_wholeWord hw he, ← hv, wordKind_of_notMem h]

/-- A comment is cut off up to the end of its line. -/
theorem isPiece_comment {c : Char} {rest : List Char} (h : startsComment c rest) :
    IsPiece none (c :: rest.takeWhile (· != '\n')) (rest.dropWhile (· != '\n')) := by
  have ht : ∀ chars : List Char, '\n' ∉ chars.takeWhile (· != '\n') := by
    intro chars hn
    have := mem_takeWhile hn
    simp at this
  have hl : ∀ chars : List Char, chars.dropWhile (· != '\n') = [] ∨
      ∃ more, chars.dropWhile (· != '\n') = '\n' :: more := by
    intro chars
    cases hd : chars.dropWhile (· != '\n') with
    | nil => exact Or.inl rfl
    | cons d more =>
      have hn := List.head?_dropWhile_not (· != '\n') chars
      rw [hd] at hn
      obtain rfl : d = '\n' := by simpa using hn
      exact Or.inr ⟨more, rfl⟩
  simp only [startsComment, Bool.or_eq_true, beq_iff_eq, Bool.and_eq_true] at h
  rcases h with hc | ⟨hc, hr⟩
  · subst hc
    exact .comment (Or.inl rfl) (ht rest) (hl rest)
  · subst hc
    obtain ⟨more, rfl⟩ := List.head?_eq_some_iff.mp hr
    rw [List.takeWhile_cons_of_pos (by decide), List.dropWhile_cons_of_pos (by decide)]
    exact .comment (Or.inr rfl) (ht more) (hl more)

/-- Every piece that is cut off a text is a lexeme, or a blank, a comment or a character that starts
nothing. -/
theorem isPiece_piece (c : Char) (rest : List Char) :
    IsPiece (piece c rest).lexeme (c :: rest.take (piece c rest).extra)
      (rest.drop (piece c rest).extra) := by
  by_cases hb : Text.isBlank c
  · rw [piece_blank hb]
    exact .blank rest hb
  by_cases hc : startsComment c rest
  · rw [piece_comment hc, take_length_takeWhile, drop_length_takeWhile]
    exact isPiece_comment hc
  by_cases hq : ∃ quote : Quote, c = quote.char
  · obtain ⟨quote, rfl⟩ := hq
    have h := takes_stringBody quote rest
    rw [piece_quote]
    generalize (stringBody quote.char rest).1 = value at h ⊢
    generalize (stringBody quote.char rest).2 = count at h ⊢
    cases h with
    | @closed body value later h =>
      have hsplit : body ++ quote.char :: later = (body ++ [quote.char]) ++ later := by simp
      have hlength : (body ++ [quote.char]).length = body.length + 1 := by simp
      rw [hsplit, List.take_left' hlength, List.drop_left' hlength]
      exact .lexeme later (.string h)
    | unclosed h hl =>
      rw [List.take_length, List.drop_length]
      exact .unclosed (.mk h hl)
  by_cases hd : c.isDigit
  · obtain ⟨hn, later, hsplit⟩ := isNumeral_numeral hd rest
    rw [piece_digit hd]
    generalize numeral (c :: rest) = digits at hn hsplit ⊢
    obtain ⟨d, more, rfl⟩ := List.exists_cons_of_ne_nil hn.ne_nil
    obtain ⟨rfl, rfl⟩ := List.cons.inj hsplit
    show IsPiece (some (.number, String.ofList (c :: more)))
      (c :: (more ++ later).take more.length) ((more ++ later).drop more.length)
    rw [List.take_left, List.drop_left]
    exact .lexeme later hn.spells
  by_cases hs : c ∈ symbolChars
  · obtain ⟨kind, value, hlexeme, h⟩ := operatorPiece_spells hs rest
    rw [piece_symbol hs (by simpa using hc), hlexeme]
    exact .lexeme _ h
  by_cases hw : c.isAlpha ∨ c = '_'
  · have h : IsWord (c :: rest.takeWhile isWordChar) := by
      refine .mk hw fun d hd => ?_
      simpa [isWordChar, or_assoc] using mem_takeWhile hd
    rw [piece_word hw, take_length_takeWhile]
    exact .lexeme _ (wordKind_spells h)
  · have h : StartsNothing c := by
      refine ⟨hb, ?_, fun quote he => hq ⟨quote, he⟩, hd, hs, hw⟩
      intro hh
      exact hc (by simp [startsComment, hh])
    rw [piece_stray h]
    exact .stray rest h

end Automation.Token
