import Automation.Proofs.Token.Piece
import Automation.Proofs.Token.Position

/-!
# Tokens and their places

The tokens of a text are spread over it: each has a span of characters of its own that spells it,
the spans follow one another, and what lies between them is blank, part of a comment, or starts
nothing. A token stands at the place just past its span, counted from the line breaks before it,
so no two tokens stand at one place.
-/
namespace Automation.Token

/-- Characters of a text, from the one with index `start` up to the one with index `stop`. -/
structure Span where
  start : Nat
  stop : Nat

def slice (text : List Char) (start stop : Nat) : List Char := (text.take stop).drop start

/-- The span is where the token is in the text. -/
structure Marks (text : List Char) (span : Span) (token : Token) : Prop where
  nonempty : span.start < span.stop
  inside : span.stop ≤ text.length
  line : token.line = 1 + (text.take span.stop).count '\n'
  column : token.column = 1 + ((text.take span.stop).reverse.takeWhile (· != '\n')).length
  lexeme : Spells token.kind token.value (slice text span.start span.stop) ∨
    token.kind = .string ∧ span.stop = text.length ∧
      SpellsUnclosed token.value (slice text span.start span.stop)

/-- No span reaches over the index. -/
def Uncovered (spans : List Span) (i : Nat) : Prop :=
  ∀ span ∈ spans, i < span.start ∨ span.stop ≤ i

/-- A comment that starts at an index, and that no token reaches into, goes on up to another. -/
structure CommentSpans (text : List Char) (spans : List Span) (start i : Nat) : Prop where
  le : start ≤ i
  opens : ∃ mark, IsCommentMark mark ∧ mark <+: text.drop start
  line : '\n' ∉ slice text start (i + 1)
  whole : ∀ j, start ≤ j → j < text.length → '\n' ∉ slice text start (j + 1) → Uncovered spans j

theorem Marks.place {text : List Char} {span : Span} {token : Token}
    (h : Marks text span token) :
    (⟨token.line, token.column⟩ : Position) = Position.start.after (text.take span.stop) := by
  rw [Position.start_after, h.line, h.column]

theorem not_spells_of_startsNothing {c : Char} (h : StartsNothing c) (kind : Kind) (value : String)
    (chars : List Char) : ¬ Spells kind value (c :: chars) := by
  intro hs
  generalize hall : c :: chars = all at hs
  cases hs with
  | string hu =>
    exact h.quote _ (List.cons.inj hall).1
  | plain hk hw =>
    cases hw with
    | string => exact hk rfl
    | number hn =>
      rw [← hall] at hn
      exact h.digit hn.head
    | operator ho =>
      have hchars :
          operators.all fun value => value.toList.all fun c => symbolChars.contains c := by
        decide
      have hc : c ∈ c :: chars := List.mem_cons_self
      rw [hall] at hc
      have hsymbol := List.all_eq_true.mp (List.all_eq_true.mp hchars value ho) c hc
      exact h.symbol (List.contains_iff_mem.mp hsymbol)
    | symbol hc hn =>
      rw [String.toList_ofList] at hall
      obtain ⟨rfl, -⟩ := List.cons.inj hall
      exact h.symbol hc
    | keyword hw hk =>
      rw [← hall] at hw
      cases hw with
      | mk starts goes => exact h.word starts
    | identifier hw hk =>
      rw [← hall] at hw
      cases hw with
      | mk starts goes => exact h.word starts

/-- A character that no token has: it is blank, or starts no token, or is part of a comment that
starts at the given index or later. -/
def Passed (text : List Char) (spans : List Span) (here i : Nat) (c : Char) : Prop :=
  Text.isBlank c ∨ (∀ kind value chars, ¬ Spells kind value (c :: chars)) ∨
    ∃ start, here ≤ start ∧ CommentSpans text spans start i

/-- The tokens of a text from an index on, with their spans. -/
structure Covers (text : List Char) (here : Nat) (spans : List Span) (tokens : List Token) :
    Prop where
  marks : List.Forall₂ (Marks text) spans tokens
  later : ∀ span ∈ spans, here ≤ span.start
  ordered : spans.Pairwise fun a b => a.stop ≤ b.start
  ahead : ∀ token ∈ tokens,
    (Position.start.after (text.take here)).Before ⟨token.line, token.column⟩
  sorted : tokens.Pairwise fun a b =>
    (⟨a.line, a.column⟩ : Position).Before ⟨b.line, b.column⟩
  passed : ∀ i c, here ≤ i → text[i]? = some c → Uncovered spans i → Passed text spans here i c

/-- What is before a span is no part of a comment that starts after it. -/
theorem CommentSpans.cons {text : List Char} {spans : List Span} {start i : Nat}
    (h : CommentSpans text spans start i) {span : Span} (hs : span.stop ≤ start) :
    CommentSpans text (span :: spans) start i := by
  refine ⟨h.le, h.opens, h.line, ?_⟩
  intro j hj hlt hline
  exact List.forall_mem_cons.mpr ⟨Or.inr (Nat.le_trans hs hj), h.whole j hj hlt hline⟩

theorem Passed.mono {text : List Char} {spans : List Span} {here start i : Nat} {c : Char}
    (h : Passed text spans here i c) (hs : start ≤ here) : Passed text spans start i c := by
  rcases h with h | h | ⟨from_, hf, h⟩
  · exact Or.inl h
  · exact Or.inr (Or.inl h)
  · exact Or.inr (Or.inr ⟨from_, Nat.le_trans hs hf, h⟩)

theorem Passed.cons {text : List Char} {spans : List Span} {here i : Nat} {c : Char}
    (h : Passed text spans here i c) {span : Span} (hs : span.stop ≤ here) :
    Passed text (span :: spans) here i c := by
  rcases h with h | h | ⟨from_, hf, h⟩
  · exact Or.inl h
  · exact Or.inr (Or.inl h)
  · exact Or.inr (Or.inr ⟨from_, hf, h.cons (Nat.le_trans hs hf)⟩)

theorem before_take {text : List Char} {start stop : Nat} (hlt : start < stop)
    (hle : stop ≤ text.length) :
    (Position.start.after (text.take start)).Before (Position.start.after (text.take stop)) := by
  have hsplit : text.take stop = text.take start ++ slice text start stop := by
    have htake : text.take start = (text.take stop).take start := by
      rw [List.take_take, Nat.min_eq_left (Nat.le_of_lt hlt)]
    rw [htake, slice, List.take_append_drop]
  have hne : slice text start stop ≠ [] := by
    have hlength : (slice text start stop).length = stop - start := by
      rw [slice, List.length_drop, List.length_take, Nat.min_eq_left hle]
    intro he
    rw [he, List.length_nil] at hlength
    omega
  rw [hsplit, Position.after_append]
  exact Position.before_after _ hne

namespace Covers

variable {text : List Char} {start stop : Nat} {spans : List Span} {tokens : List Token}

theorem nil (text : List Char) : Covers text text.length [] [] := by
  refine ⟨.nil, by simp, .nil, by simp, .nil, ?_⟩
  intro i c hi hc
  rw [List.getElem?_eq_none hi] at hc
  cases hc

/-- Characters without a token before the others. -/
theorem skip (h : Covers text stop spans tokens) (hlt : start < stop) (hle : stop ≤ text.length)
    (hp : ∀ i c, start ≤ i → i < stop → text[i]? = some c → Passed text spans start i c) :
    Covers text start spans tokens := by
  refine ⟨h.marks, fun span hspan => Nat.le_trans (Nat.le_of_lt hlt) (h.later span hspan),
    h.ordered, ?_, h.sorted,
    ?_⟩
  · intro token htoken
    exact (before_take hlt hle).trans (h.ahead token htoken)
  · intro i c hi hc hu
    by_cases his : i < stop
    · exact hp i c hi his hc
    · exact (h.passed i c (by omega) hc hu).mono (Nat.le_of_lt hlt)

/-- A token before the others. -/
theorem lexeme (h : Covers text stop spans tokens) {token : Token}
    (hm : Marks text ⟨start, stop⟩ token) :
    Covers text start (⟨start, stop⟩ :: spans) (token :: tokens) := by
  have hlt : start < stop := hm.nonempty
  have hplace := hm.place
  have hbefore := before_take hlt hm.inside
  constructor
  · exact .cons hm h.marks
  · exact List.forall_mem_cons.mpr ⟨Nat.le_refl _, fun span hspan =>
      Nat.le_trans (Nat.le_of_lt hlt) (h.later span hspan)⟩
  · exact .cons h.later h.ordered
  · refine List.forall_mem_cons.mpr ⟨?_, fun other hother => hbefore.trans (h.ahead other hother)⟩
    rw [hplace]
    exact hbefore
  · refine .cons ?_ h.sorted
    intro other hother
    rw [hplace]
    exact h.ahead other hother
  · intro i c hi hc hu
    obtain ⟨hfirst, hrest⟩ := List.forall_mem_cons.mp hu
    have hstop : stop ≤ i := by
      have hcase : i < start ∨ stop ≤ i := hfirst
      omega
    exact ((h.passed i c hstop hc hrest).cons (Nat.le_refl stop)).mono (Nat.le_of_lt hlt)

end Covers

section Piece

variable (before : List Char) {taken later : List Char}

theorem take_taken :
    (before ++ (taken ++ later)).take (before.length + taken.length) = before ++ taken := by
  rw [← List.append_assoc, List.take_left' List.length_append]

/-- A slice that starts where a part of the text ends. -/
theorem slice_append (chars : List Char) (count : Nat) :
    slice (before ++ chars) before.length (before.length + count) = chars.take count := by
  rw [slice, List.take_length_add_append, List.drop_left]

/-- A piece that is a lexeme is the span of its token. -/
theorem marks_of_isPiece {kind : Kind} {value : String}
    (h : IsPiece (some (kind, value)) taken later) (hne : taken ≠ []) :
    Marks (before ++ (taken ++ later)) ⟨before.length, before.length + taken.length⟩
      ⟨kind, value, (Position.start.after (before ++ taken)).line,
        (Position.start.after (before ++ taken)).column⟩ := by
  have hpos : 0 < taken.length := List.length_pos_iff.mpr hne
  constructor
  · show before.length < before.length + taken.length
    omega
  · show before.length + taken.length ≤ (before ++ (taken ++ later)).length
    simp only [List.length_append]
    omega
  · show _ = 1 + (List.take (before.length + taken.length) _).count '\n'
    rw [take_taken, Position.start_after]
  · show _ = 1 + ((List.take (before.length + taken.length) _).reverse.takeWhile _).length
    rw [take_taken, Position.start_after]
  · show Spells kind value (slice _ before.length (before.length + taken.length)) ∨
      kind = .string ∧ before.length + taken.length = (before ++ (taken ++ later)).length ∧
        SpellsUnclosed value (slice _ before.length (before.length + taken.length))
    rw [slice_append, List.take_left]
    cases h with
    | lexeme later h => exact Or.inl h
    | unclosed h => exact Or.inr ⟨rfl, by simp, h⟩

theorem not_mem_mark {mark : List Char} (h : IsCommentMark mark) : '\n' ∉ mark := by
  obtain rfl | rfl := h <;> decide

/-- A comment is passed over with all its characters. -/
theorem commentSpans_of_taken {mark text : List Char} {spans : List Span} (hm : IsCommentMark mark)
    (ht : '\n' ∉ text) (hl : later = [] ∨ ∃ more, later = '\n' :: more)
    (htaken : taken = mark ++ text)
    (hspans : ∀ span ∈ spans, before.length + taken.length ≤ span.start) {i : Nat}
    (hi : before.length ≤ i) (his : i < before.length + taken.length) :
    CommentSpans (before ++ (taken ++ later)) spans before.length i := by
  have hclean : '\n' ∉ taken := by
    rw [htaken, List.mem_append]
    exact fun h => h.elim (not_mem_mark hm) ht
  constructor
  · exact hi
  · refine ⟨mark, hm, ?_⟩
    rw [List.drop_left, htaken, List.append_assoc]
    exact List.prefix_append mark (text ++ later)
  · obtain ⟨count, rfl⟩ := Nat.exists_eq_add_of_le hi
    have hcount : count + 1 ≤ taken.length := by omega
    rw [Nat.add_assoc, slice_append, List.take_append_of_le_length hcount]
    exact fun hmem => hclean (List.mem_of_mem_take hmem)
  · intro j hj hlt hline span hspan
    have hstart := hspans span hspan
    apply Or.inl
    by_contra hge
    obtain rfl | ⟨more, rfl⟩ := hl
    · simp only [List.append_nil, List.length_append] at hlt
      omega
    · -- the line break right after the comment comes before the span, so it is in the slice
      obtain ⟨past, rfl⟩ := Nat.exists_eq_add_of_le (show before.length + taken.length ≤ j by omega)
      apply hline
      rw [Nat.add_assoc, Nat.add_assoc, slice_append, List.take_length_add_append,
        List.take_succ_cons]
      exact List.mem_append_right _ List.mem_cons_self

/-- The characters of a piece that is no lexeme are passed over. -/
theorem passed_of_isPiece {spans : List Span} (h : IsPiece none taken later)
    (hspans : ∀ span ∈ spans, before.length + taken.length ≤ span.start)
    {i : Nat} {c : Char} (hi : before.length ≤ i) (his : i < before.length + taken.length)
    (hc : (before ++ (taken ++ later))[i]? = some c) :
    Passed (before ++ (taken ++ later)) spans before.length i c := by
  have hone : ∀ d : Char, taken = [d] → d = c := by
    intro d hd
    subst hd
    have heq : i = before.length := by
      rw [List.length_singleton] at his
      omega
    rw [heq, List.getElem?_append_right (Nat.le_refl _), Nat.sub_self] at hc
    exact Option.some.inj hc
  cases h with
  | @blank d later hb =>
    obtain rfl := hone d rfl
    exact Or.inl hb
  | @stray d later hs =>
    obtain rfl := hone d rfl
    exact Or.inr (Or.inl (not_spells_of_startsNothing hs))
  | comment hm ht hl =>
    exact Or.inr (Or.inr ⟨before.length, Nat.le_refl _,
      commentSpans_of_taken before hm ht hl rfl hspans hi his⟩)

/-- A piece that is no lexeme before the others. -/
theorem Covers.passed_piece {spans : List Span} {tokens : List Token}
    (h : Covers (before ++ (taken ++ later)) (before.length + taken.length) spans tokens)
    (hp : IsPiece none taken later) (hne : taken ≠ []) :
    Covers (before ++ (taken ++ later)) before.length spans tokens := by
  have hpos : 0 < taken.length := List.length_pos_iff.mpr hne
  apply h.skip
  · omega
  · simp only [List.length_append]
    omega
  · intro i c hi his hc
    exact passed_of_isPiece before hp h.later hi his hc

end Piece

theorem cons_split (c : Char) (rest : List Char) (count : Nat) :
    c :: rest = c :: rest.take count ++ rest.drop count := by
  rw [List.cons_append, List.take_append_drop]

/-- The tokens of the characters from an index on. -/
theorem covers_scanFrom (place : Position) (chars before : List Char)
    (hplace : place = Position.start.after before) :
    ∃ spans, Covers (before ++ chars) before.length spans (scanFrom place chars) := by
  fun_induction scanFrom place chars generalizing before with
  | case1 place =>
    refine ⟨[], ?_⟩
    rw [List.append_nil]
    exact .nil before
  | case2 place c rest first next later kind value hl ih =>
    have hpiece := isPiece_piece c rest
    have hnext : next = Position.start.after (before ++ c :: rest.take first.extra) := by
      rw [Position.after_append, ← hplace]
    obtain ⟨spans, hcovers⟩ := ih _ hnext
    rw [List.append_assoc, List.length_append] at hcovers
    rw [show (piece c rest).lexeme = some (kind, value) from hl] at hpiece
    rw [cons_split c rest first.extra, hnext]
    exact ⟨_, hcovers.lexeme (marks_of_isPiece before hpiece (List.cons_ne_nil _ _))⟩
  | case3 place c rest first next later hl ih =>
    have hpiece := isPiece_piece c rest
    have hnext : next = Position.start.after (before ++ c :: rest.take first.extra) := by
      rw [Position.after_append, ← hplace]
    obtain ⟨spans, hcovers⟩ := ih _ hnext
    rw [List.append_assoc, List.length_append] at hcovers
    rw [show (piece c rest).lexeme = none from hl] at hpiece
    rw [cons_split c rest first.extra]
    exact ⟨spans, hcovers.passed_piece before hpiece (List.cons_ne_nil _ _)⟩

/-- The tokens of a text correspond, in order, to spans of the text. The spans follow one another
and each spells its token, which stands at the place just past it; an unclosed string can only be
the last. Places are in the order of the tokens, so no two are the same. Every character outside the
spans is blank, or part of a comment, or starts no token. -/
theorem scan_spans (code : String) :
    ∃ spans : List Span,
      List.Forall₂ (Marks code.toList) spans (scan code) ∧
      spans.Pairwise (fun a b => a.stop ≤ b.start) ∧
      (scan code).Pairwise (fun a b =>
        (⟨a.line, a.column⟩ : Position).Before ⟨b.line, b.column⟩) ∧
      ((scan code).map fun token => (token.line, token.column)).Nodup ∧
      ∀ i c, code.toList[i]? = some c → Uncovered spans i →
        Text.isBlank c ∨ (∀ kind value chars, ¬ Spells kind value (c :: chars)) ∨
          ∃ start, CommentSpans code.toList spans start i := by
  obtain ⟨spans, h⟩ := covers_scanFrom Position.start code.toList [] rfl
  refine ⟨spans, h.marks, h.ordered, h.sorted, ?_, ?_⟩
  · rw [List.Nodup, List.pairwise_map]
    refine h.sorted.imp ?_
    intro a b hab he
    obtain ⟨hline, hcolumn⟩ := Prod.mk.inj he
    unfold Position.Before at hab
    simp only at hab
    omega
  · intro i c hc hu
    rcases h.passed i c (Nat.zero_le i) hc hu with hb | hs | ⟨start, -, hcomment⟩
    · exact Or.inl hb
    · exact Or.inr (Or.inl hs)
    · exact Or.inr (Or.inr ⟨start, hcomment⟩)

end Automation.Token
