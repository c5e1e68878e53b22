import Automation.Token.Scanner

/-!
# Lexemes

What the scanner is measured by, said without it: which values a token of each kind can have, how
such a value is spelled, and what can stand between lexemes.
-/
namespace Automation.Token

def IsDigits (chars : List Char) : Prop := chars ≠ [] ∧ ∀ c ∈ chars, c.isDigit

/-- `DIGITS | DIGITS "." DIGITS` -/
inductive IsNumeral : List Char → Prop
  | whole {digits : List Char} (h : IsDigits digits) : IsNumeral digits
  | decimal {whole fraction : List Char} (hw : IsDigits whole) (hf : IsDigits fraction) :
      IsNumeral (whole ++ '.' :: fraction)

/-- A letter or underscore, followed by letters, digits, underscores and dashes. -/
inductive IsWord : List Char → Prop
  | mk {c : Char} {more : List Char} (starts : c.isAlpha ∨ c = '_')
      (goes : ∀ d ∈ more, d.isAlphanum ∨ d = '_' ∨ d = '-') : IsWord (c :: more)

/-- The values that a token of each kind can have. -/
inductive WellFormed : Kind → String → Prop
  | string (value : String) : WellFormed .string value
  | number {value : String} (h : IsNumeral value.toList) : WellFormed .number value
  | operator {value : String} (h : value ∈ operators) : WellFormed .operator value
  | symbol {c : Char} (hc : c ∈ symbolChars) (h : String.ofList [c] ∉ operators) :
      WellFormed .symbol (String.ofList [c])
  | keyword {value : String} (hw : IsWord value.toList) (h : value ∈ keywords) :
      WellFormed .keyword value
  | identifier {value : String} (hw : IsWord value.toList) (h : value ∉ keywords) :
      WellFormed .identifier value

/-- The marks that open and close a string. -/
inductive Quote where
  | single
  | double
  deriving DecidableEq, Inhabited

def Quote.char : Quote → Char
  | single => '\''
  | double => '"'

/-- What the characters between two quotes stand for: after a backslash any character stands for
itself, without one any but the backslash and the quote. -/
inductive Unescapes (quote : Quote) : List Char → List Char → Prop
  | nil : Unescapes quote [] []
  | escaped {body value : List Char} (c : Char) (h : Unescapes quote body value) :
      Unescapes quote ('\\' :: c :: body) (c :: value)
  | plain {c : Char} {body value : List Char} (hb : c ≠ '\\') (hq : c ≠ quote.char)
      (h : Unescapes quote body value) : Unescapes quote (c :: body) (c :: value)

/-- The characters are a lexeme of the kind and the value. -/
inductive Spells : Kind → String → List Char → Prop
  | string {quote : Quote} {body value : List Char} (h : Unescapes quote body value) :
      Spells .string (String.ofList value) (quote.char :: (body ++ [quote.char]))
  | plain {kind : Kind} {value : String} (hk : kind ≠ .string) (h : WellFormed kind value) :
      Spells kind value value.toList

/-- The characters are a string without its closing quote, perhaps with a last backslash that has
nothing to escape. -/
inductive SpellsUnclosed : String → List Char → Prop
  | mk {quote : Quote} {body value last : List Char} (h : Unescapes quote body value)
      (hl : last = [] ∨ last = ['\\']) :
      SpellsUnclosed (String.ofList value) (quote.char :: (body ++ last))

/-- No token and no comment starts with the character, and it is no blank either. -/
structure StartsNothing (c : Char) : Prop where
  blank : ¬ Text.isBlank c
  comment : c ≠ '#'
  quote : ∀ quote : Quote, c ≠ quote.char
  digit : ¬ c.isDigit
  symbol : c ∉ symbolChars
  word : ¬ (c.isAlpha ∨ c = '_')

/-- The marks that start a comment. -/
def IsCommentMark (mark : List Char) : Prop := mark = ['#'] ∨ mark = ['/', '/']

/-- A piece that was cut off a text, given the lexeme that it is, if it is one, its characters and
the characters after it. -/
inductive IsPiece : Option (Kind × String) → List Char → List Char → Prop
  | blank {c : Char} (later : List Char) (h : Text.isBlank c) : IsPiece none [c] later
  | comment {mark text later : List Char} (hm : IsCommentMark mark) (ht : '\n' ∉ text)
      (hl : later = [] ∨ ∃ more, later = '\n' :: more) : IsPiece none (mark ++ text) later
  | stray {c : Char} (later : List Char) (h : StartsNothing c) : IsPiece none [c] later
  | lexeme {kind : Kind} {value : String} {chars : List Char} (later : List Char)
      (h : Spells kind value chars) : IsPiece (some (kind, value)) chars later
  | unclosed {value : String} {chars : List Char} (h : SpellsUnclosed value chars) :
      IsPiece (some (.string, value)) chars []

theorem Spells.wellFormed {kind : Kind} {value : String} {chars : List Char}
    (h : Spells kind value chars) : WellFormed kind value := by
  cases h with
  | string h => exact .string _
  | plain hk h => exact h

/-- What is cut off as a lexeme has a value that its kind can have. -/
theorem IsPiece.wellFormed {kind : Kind} {value : String} {chars later : List Char}
    (h : IsPiece (some (kind, value)) chars later) : WellFormed kind value := by
  cases h with
  | lexeme later h => exact h.wellFormed
  | unclosed h => exact .string _

end Automation.Token
