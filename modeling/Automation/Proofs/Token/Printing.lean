import Automation.Proofs.Token.Piece
import Automation.Proofs.Token.Position

/-!
# Scanning undoes printing

A list of lexemes is printed by spelling each of them, strings in either quote, with a separator
between one and the next. A separator starts with a blank and goes on with blanks, comments that end
with their line, and characters that start nothing, in any order. Whatever quotes and separators
are chosen, scanning the text gives the lexemes back; and all that scanning ever gives can be
printed.
-/
namespace Automation.Token

/-- What a token says, wherever it stands. -/
def content (token : Token) : Kind × String := (token.kind, token.value)

/-- Blanks, comments that end with their line, and characters that start nothing. -/
inductive Filler : List Char → Prop
  | nil : Filler []
  | blank {c : Char} {more : List Char} (h : Text.isBlank c) (hm : Filler more) :
      Filler (c :: more)
  | stray {c : Char} {more : List Char} (h : StartsNothing c) (hm : Filler more) :
      Filler (c :: more)
  | comment {mark text more : List Char} (hm : IsCommentMark mark) (ht : '\n' ∉ text)
      (hf : Filler more) : Filler (mark ++ (text ++ '\n' :: more))

structure Separator where
  first : Char
  more : List Char
  isBlank : Text.isBlank first
  isFiller : Filler more

def Separator.chars (separator : Separator) : List Char := separator.first :: separator.more

/-- A text with a backslash before every quote of the given kind and every backslash. -/
def escaped (quote : Quote) (chars : List Char) : List Char :=
  chars.flatMap fun c => if c = quote.char ∨ c = '\\' then ['\\', c] else [c]

/-- The characters of a lexeme in print; the quote counts for strings only. -/
def spelled (quote : Quote) (lexeme : Kind × String) : List Char :=
  if lexeme.1 = .string then
    quote.char :: (escaped quote lexeme.2.toList ++ [quote.char])
  else lexeme.2.toList

/-- The text of lexemes, each with its quote and the separator between it and the next. -/
def print : List ((Kind × String) × Quote × Separator) → List Char
  | [] => []
  | [(lexeme, quote, _)] => spelled quote lexeme
  | (lexeme, quote, separator) :: rest =>
    spelled quote lexeme ++ (separator.chars ++ print rest)

theorem unescapes_escaped (quote : Quote) (chars : List Char) :
    Unescapes quote (escaped quote chars) chars := by
  induction chars with
  | nil => exact .nil
  | cons c rest ih =>
    by_cases hc : c = quote.char ∨ c = '\\'
    · have he : escaped quote (c :: rest) = '\\' :: c :: escaped quote rest := by
        simp [escaped, hc]
      rw [he]
      exact ih.escaped c
    · have he : escaped quote (c :: rest) = c :: escaped quote rest := by
        simp [escaped, hc]
      rw [he]
      obtain ⟨hq, hb⟩ := not_or.mp hc
      exact .plain hb hq ih

theorem spells_spelled (quote : Quote) {lexeme : Kind × String}
    (h : WellFormed lexeme.1 lexeme.2) : Spells lexeme.1 lexeme.2 (spelled quote lexeme) := by
  obtain ⟨kind, value⟩ := lexeme
  unfold spelled
  split
  · next hk =>
    obtain rfl : kind = .string := hk
    have hs := Spells.string (unescapes_escaped quote value.toList)
    rwa [String.ofList_toList] at hs
  · next hk => exact .plain hk h

theorem WellFormed.ne_nil {kind : Kind} {value : String} (h : WellFormed kind value)
    (hk : kind ≠ .string) : value.toList ≠ [] := by
  cases h with
  | string => exact absurd rfl hk
  | number h => exact h.ne_nil
  | operator h =>
    have hall : ∀ value ∈ operators, value.toList ≠ [] := by decide
    exact hall value h
  | symbol hc h => simp
  | keyword hw h =>
    intro he
    rw [he] at hw
    cases hw
  | identifier hw h =>
    intro he
    rw [he] at hw
    cases hw

theorem Spells.ne_nil {kind : Kind} {value : String} {chars : List Char}
    (h : Spells kind value chars) : chars ≠ [] := by
  cases h with
  | string h => exact List.cons_ne_nil _ _
  | plain hk h => exact h.ne_nil hk

/-! ### One piece after the other -/

/-- A piece that makes no token only moves the place. -/
theorem scanFrom_skip {c : Char} {chars later : List Char}
    (h : piece c (chars ++ later) = ⟨chars.length, none⟩) (place : Position) :
    scanFrom place (c :: (chars ++ later)) = scanFrom (place.after (c :: chars)) later := by
  rw [scanFrom, h]
  simp only [List.take_left, List.drop_left]

/-- A lexeme makes a token at the place after it. -/
theorem scanFrom_lexeme {c : Char} {chars later : List Char} {kind : Kind} {value : String}
    (h : piece c (chars ++ later) = ⟨chars.length, some (kind, value)⟩) (place : Position) :
    scanFrom place (c :: (chars ++ later)) =
      ⟨kind, value, (place.after (c :: chars)).line, (place.after (c :: chars)).column⟩ ::
        scanFrom (place.after (c :: chars)) later := by
  rw [scanFrom, h]
  simp only [List.take_left, List.drop_left]

theorem scanFrom_blank {c : Char} (h : Text.isBlank c) (place : Position) (later : List Char) :
    scanFrom place (c :: later) = scanFrom (place.after [c]) later :=
  @scanFrom_skip c [] later (piece_blank h later) place

theorem scanFrom_stray {c : Char} (h : StartsNothing c) (place : Position) (later : List Char) :
    scanFrom place (c :: later) = scanFrom (place.after [c]) later :=
  @scanFrom_skip c [] later (piece_stray h later) place

/-- A comment is passed over up to the end of its line. -/
theorem scanFrom_comment {mark text : List Char} (hm : IsCommentMark mark) (ht : '\n' ∉ text)
    (place : Position) (later : List Char) :
    scanFrom place (mark ++ (text ++ '\n' :: later)) =
      scanFrom (place.after (mark ++ text)) ('\n' :: later) := by
  have hskip : ∀ (c : Char) (more : List Char), startsComment c (more ++ '\n' :: later) →
      '\n' ∉ more → scanFrom place (c :: (more ++ '\n' :: later)) =
        scanFrom (place.after (c :: more)) ('\n' :: later) := by
    intro c more hc hn
    have htake : (more ++ '\n' :: later).takeWhile (· != '\n') = more := by
      rw [List.takeWhile_append_of_pos, List.takeWhile_cons_of_neg (by decide), List.append_nil]
      intro d hd
      rw [bne_iff_ne]
      intro he
      exact hn (he ▸ hd)
    apply scanFrom_skip
    rw [piece_comment hc, htake]
  rcases hm with rfl | rfl
  · exact hskip '#' text rfl ht
  · have hn : '\n' ∉ '/' :: text := by simpa using ht
    exact hskip '/' ('/' :: text) rfl hn

theorem scanFrom_filler {chars : List Char} (h : Filler chars) (place : Position)
    (later : List Char) :
    scanFrom place (chars ++ later) = scanFrom (place.after chars) later := by
  induction h generalizing place with
  | nil => rfl
  | blank h _ ih => exact (scanFrom_blank h place _).trans (ih _)
  | stray h _ ih => exact (scanFrom_stray h place _).trans (ih _)
  | @comment mark text more hm ht _ ih =>
    have hsplit : mark ++ (text ++ '\n' :: more) = (mark ++ text) ++ ['\n'] ++ more := by simp
    calc scanFrom place (mark ++ (text ++ '\n' :: more) ++ later)
        = scanFrom place (mark ++ (text ++ '\n' :: (more ++ later))) := by simp
      _ = scanFrom (place.after (mark ++ text)) ('\n' :: (more ++ later)) :=
          scanFrom_comment hm ht place _
      _ = scanFrom ((place.after (mark ++ text)).after ['\n']) (more ++ later) :=
          scanFrom_blank (by decide) _ _
      _ = scanFrom (((place.after (mark ++ text)).after ['\n']).after more) later := ih _
      _ = scanFrom (place.after (mark ++ (text ++ '\n' :: more))) later := by
          simp only [hsplit, Position.after_append]

/-- A lexeme that is followed by a blank, or by nothing, is scanned as what it spells. -/
theorem contents_spelled {lexeme : Kind × String} (h : WellFormed lexeme.1 lexeme.2)
    (quote : Quote) {later : List Char} (he : Ends later) (place : Position) :
    (scanFrom place (spelled quote lexeme ++ later)).map content =
      lexeme :: (scanFrom (place.after (spelled quote lexeme)) later).map content := by
  have hs := spells_spelled quote h
  obtain ⟨c, chars, hc⟩ := List.exists_cons_of_ne_nil hs.ne_nil
  rw [hc] at hs ⊢
  rw [List.cons_append, scanFrom_lexeme (piece_of_spells hs he)]
  rfl

theorem contents_print {items : List ((Kind × String) × Quote × Separator)}
    (h : ∀ item ∈ items, WellFormed item.1.1 item.1.2) (place : Position) :
    (scanFrom place (print items)).map content = items.map Prod.fst := by
  fun_induction print items generalizing place with
  | case1 => rw [scanFrom]; rfl
  | case2 lexeme quote separator =>
    have hw := h _ List.mem_cons_self
    have hnil : Ends [] := by simp [Ends]
    have hs := contents_spelled hw quote hnil place
    rw [List.append_nil, scanFrom] at hs
    exact hs
  | case3 lexeme quote separator rest hne ih =>
    obtain ⟨hw, hrest⟩ := List.forall_mem_cons.mp h
    have he : Ends (separator.chars ++ print rest) := by
      intro c hc
      obtain rfl : separator.first = c := Option.some.inj hc
      exact separator.isBlank
    have hf := Filler.blank separator.isBlank separator.isFiller
    rw [contents_spelled hw quote he place, Separator.chars, scanFrom_filler hf, ih hrest]
    rfl

/-- All that scanning gives can be printed. -/
theorem wellFormed_scanFrom {place : Position} {chars : List Char} :
    ∀ token ∈ scanFrom place chars, WellFormed token.kind token.value := by
  fun_induction scanFrom place chars with
  | case1 place => simp
  | case2 place c rest first next later kind value hl ih =>
    have hpiece := isPiece_piece c rest
    rw [show (piece c rest).lexeme = some (kind, value) from hl] at hpiece
    exact List.forall_mem_cons.mpr ⟨hpiece.wellFormed, ih⟩
  | case3 place c rest first next later hl ih => exact ih

/-- Scanning undoes printing, whatever quotes and separators are chosen; every token of a text is
a lexeme that can be printed; so the tokens of any text can be printed and scanned again. -/
theorem scan_undoes_print :
    (∀ items : List ((Kind × String) × Quote × Separator),
      (∀ item ∈ items, WellFormed item.1.1 item.1.2) →
        (scan (String.ofList (print items))).map content = items.map Prod.fst) ∧
    (∀ code : String, ∀ token ∈ scan code, WellFormed token.kind token.value) ∧
    ∀ (code : String) (choices : List (Quote × Separator)),
      choices.length = (scan code).length →
        (scan (String.ofList (print (((scan code).map content).zip choices)))).map content =
          (scan code).map content := by
  have hprint : ∀ items : List ((Kind × String) × Quote × Separator),
      (∀ item ∈ items, WellFormed item.1.1 item.1.2) →
        (scan (String.ofList (print items))).map content = items.map Prod.fst := by
    intro items h
    rw [scan, String.toList_ofList]
    exact contents_print h _
  have hscan : ∀ code : String, ∀ token ∈ scan code, WellFormed token.kind token.value :=
    fun code => wellFormed_scanFrom
  refine ⟨hprint, hscan, ?_⟩
  intro code choices hlength
  rw [hprint]
  · rw [List.map_fst_zip]
    rw [List.length_map]
    omega
  · intro item hitem
    obtain ⟨token, htoken, hcontent⟩ := List.mem_map.mp (List.of_mem_zip hitem).1
    have hw := hscan code token htoken
    rw [← hcontent]
    exact hw

/-- A word and a string with a quote inside, with a comment between them, and the tokens of a text
without blanks in print. -/
theorem scan_undoes_print_greeting :
    let pause : Separator := ⟨' ', [], by decide, .nil⟩
    let remark : Separator := ⟨' ', ['#', '!', '\n'], by decide,
      @Filler.comment ['#'] ['!'] [] (Or.inl rfl) (by decide) .nil⟩
    let items : List ((Kind × String) × Quote × Separator) :=
      [((.identifier, "say"), .single, remark), ((.string, "it's"), .single, pause)]
    let call := "wait(1.5)"
    let choices := [(Quote.single, pause), (.single, pause), (.single, pause), (.single, pause)]
    (∀ item ∈ items, WellFormed item.1.1 item.1.2) ∧
      String.ofList (print items) = "say #!\n'it\\'s'" ∧
      (scan (String.ofList (print items))).map content = [(.identifier, "say"), (.string, "it's")] ∧
      ⟨.number, "1.5", 1, 9⟩ ∈ scan call ∧ WellFormed .number "1.5" ∧
      choices.length = (scan call).length ∧
      (scan (String.ofList (print (((scan call).map content).zip choices)))).map content =
        (scan call).map content := by
  intro pause remark items call choices
  obtain ⟨hprint, hscan, hagain⟩ := scan_undoes_print
  have hwell : ∀ item ∈ items, WellFormed item.1.1 item.1.2 := by
    have hgoes : ['a', 'y'].all fun d => d.isAlphanum ∨ d = '_' ∨ d = '-' := by decide
    have hword : IsWord "say".toList := .mk (Or.inl (by decide)) fun d hd =>
      of_decide_eq_true (List.all_eq_true.mp hgoes d hd)
    exact List.forall_mem_cons.mpr ⟨.identifier hword (by decide),
      List.forall_mem_singleton.mpr (.string "it's")⟩
  have hnumber : (⟨.number, "1.5", 1, 9⟩ : Token) ∈ scan call := by decide +kernel
  have hlength : choices.length = (scan call).length := by decide +kernel
  exact ⟨hwell, rfl, hprint items hwell, hnumber, hscan call _ hnumber, hlength,
    hagain call choices hlength⟩

end Automation.Token
