import Automation.Proofs.Program.Grammar

/-!
# Parsers and their languages

`Reads` ties a parser to a language. The parser takes exactly the words of the language off the
front, whatever follows them; and when it is stuck, the tokens before that place can be completed to
a word, and nothing that follows the place changes the answer. A parser that decides by its first
token, and one parser after another, are such parsers if their parts are, so what is said here of
the parser of rule blocks is put together from its parts.
-/
namespace Automation

/-- A parser and a language of tokens with what they say. -/
structure Reads (p : Parser α) (language : List Token → α → Prop) : Prop where
  sound : ∀ {tokens rest a}, p tokens = .ok (a, rest) →
    ∃ read, tokens = read ++ rest ∧ language read a
  complete : ∀ {read a}, language read a → ∀ rest, p (read ++ rest) = .ok (a, rest)
  stuck : ∀ {tokens missing token}, p tokens = .error ⟨missing, some token⟩ →
    ∃ read rest, tokens = read ++ token :: rest ∧ (∃ more a, language (read ++ more) a) ∧
      ∀ later, p (read ++ token :: later) = .error ⟨missing, some token⟩
  short : ∀ {tokens missing}, p tokens = .error ⟨missing, none⟩ →
    ∃ more a, language (tokens ++ more) a

namespace Reads

variable {p : Parser α} {language : List Token → α → Prop}

/-- Whatever a parser does without tokens, its language has a word. -/
theorem nonempty (h : Reads p language) : ∃ word a, language word a := by
  cases hp : p [] with
  | ok r =>
    obtain ⟨read, -, hl⟩ := @h.sound _ r.2 r.1 hp
    exact ⟨read, r.1, hl⟩
  | error stuck =>
    obtain ⟨missing, token⟩ := stuck
    cases token with
    | none => exact h.short hp
    | some token =>
      obtain ⟨read, rest, he, -⟩ := h.stuck hp
      simp at he

theorem congr {other : List Token → α → Prop} (h : Reads p language)
    (he : ∀ tokens a, language tokens a ↔ other tokens a) : Reads p other := by
  have : language = other := funext fun tokens => funext fun a => propext (he tokens a)
  rwa [← this]

theorem done (a : α) :
    Reads (fun tokens => .ok (a, tokens)) fun tokens b => tokens = [] ∧ b = a where
  sound := by
    rintro tokens rest b h
    cases h
    exact ⟨[], rfl, rfl, rfl⟩
  complete := by
    rintro read b ⟨rfl, rfl⟩ rest
    rfl
  stuck := by
    intro tokens missing token h
    cases h
  short := by
    intro tokens missing h
    cases h

/-- A parser whose first token decides how it goes on. -/
theorem first (choose : Token → Except Missing α) {q : Parser β} {next : α → Parser β}
    {languages : α → List Token → β → Prop} {none : Missing} (hnil : q [] = .error ⟨none, .none⟩)
    (hcons : ∀ t rest, q (t :: rest) =
      match choose t with
      | .ok a => next a rest
      | .error missing => .error ⟨missing, some t⟩)
    (hsome : ∃ t a, choose t = .ok a) (hnext : ∀ a, Reads (next a) (languages a)) :
    Reads q fun tokens b =>
      ∃ t rest a, tokens = t :: rest ∧ choose t = .ok a ∧ languages a rest b where
  sound := by
    intro tokens rest b h
    cases tokens with
    | nil => rw [hnil] at h; cases h
    | cons t later =>
      rw [hcons] at h
      cases hc : choose t with
      | error missing => rw [hc] at h; cases h
      | ok a =>
        rw [hc] at h
        obtain ⟨read, rfl, hl⟩ := (hnext a).sound h
        exact ⟨t :: read, rfl, t, read, a, rfl, hc, hl⟩
  complete := by
    rintro read b ⟨t, later, a, rfl, hc, hl⟩ rest
    rw [List.cons_append, hcons, hc]
    exact (hnext a).complete hl rest
  stuck := by
    intro tokens missing token h
    cases tokens with
    | nil => rw [hnil] at h; cases h
    | cons t later =>
      rw [hcons] at h
      cases hc : choose t with
      | error missing' =>
        rw [hc] at h
        cases h
        obtain ⟨t', a, hc'⟩ := hsome
        obtain ⟨word, b, hl⟩ := (hnext a).nonempty
        refine ⟨[], later, rfl, ⟨t' :: word, b, t', word, a, rfl, hc', hl⟩, fun rest => ?_⟩
        rw [List.nil_append, hcons, hc]
      | ok a =>
        rw [hc] at h
        obtain ⟨read, rest, rfl, ⟨more, b, hl⟩, hlater⟩ := (hnext a).stuck h
        refine ⟨t :: read, rest, rfl, ⟨more, b, t, read ++ more, a, rfl, hc, hl⟩, fun rest' => ?_⟩
        rw [List.cons_append, hcons, hc]
        exact hlater rest'
  short := by
    intro tokens missing h
    cases tokens with
    | nil =>
      obtain ⟨t, a, hc⟩ := hsome
      obtain ⟨word, b, hl⟩ := (hnext a).nonempty
      exact ⟨t :: word, b, t, word, a, rfl, hc, hl⟩
    | cons t later =>
      rw [hcons] at h
      cases hc : choose t with
      | error missing' => rw [hc] at h; cases h
      | ok a =>
        rw [hc] at h
        obtain ⟨more, b, hl⟩ := (hnext a).short h
        exact ⟨more, b, t, later ++ more, a, rfl, hc, hl⟩

/-- One parser after another. The language of the first need not know where its words end: that is
what `complete` says of it. -/
theorem andThen {f : α → Parser β} {languages : α → List Token → β → Prop}
    (h : Reads p language) (hf : ∀ a, Reads (f a) (languages a)) :
    Reads (fun tokens => p tokens >>= fun r => f r.1 r.2) fun tokens b =>
      ∃ front back a, tokens = front ++ back ∧ language front a ∧ languages a back b where
  sound := by
    intro tokens rest b hr
    cases hp : p tokens with
    | error stuck => rw [hp] at hr; cases hr
    | ok r =>
      rw [hp] at hr
      obtain ⟨a, later⟩ := r
      obtain ⟨front, rfl, hl⟩ := h.sound hp
      obtain ⟨back, rfl, hl'⟩ := (hf a).sound hr
      exact ⟨front ++ back, (List.append_assoc _ _ _).symm, front, back, a, rfl, hl, hl'⟩
  complete := by
    rintro read b ⟨front, back, a, rfl, hl, hl'⟩ rest
    rw [List.append_assoc, h.complete hl]
    exact (hf a).complete hl' rest
  stuck := by
    intro tokens missing token hr
    cases hp : p tokens with
    | error stuck =>
      rw [hp] at hr
      cases hr
      obtain ⟨read, rest, rfl, ⟨more, a, hl⟩, hlater⟩ := h.stuck hp
      obtain ⟨word, b, hl'⟩ := (hf a).nonempty
      refine ⟨read, rest, rfl, ⟨more ++ word, b, read ++ more, word, a, ?_, hl, hl'⟩,
        fun later => ?_⟩
      · rw [List.append_assoc]
      · rw [hlater later]
        rfl
    | ok r =>
      rw [hp] at hr
      obtain ⟨a, later⟩ := r
      obtain ⟨front, rfl, hl⟩ := h.sound hp
      obtain ⟨read, rest, rfl, ⟨more, b, hl'⟩, hlater⟩ := (hf a).stuck hr
      refine ⟨front ++ read, rest, by rw [List.append_assoc], ⟨more, b, front, read ++ more, a,
        by rw [List.append_assoc], hl, hl'⟩, fun rest' => ?_⟩
      rw [List.append_assoc, h.complete hl]
      exact hlater rest'
  short := by
    intro tokens missing hr
    cases hp : p tokens with
    | error stuck =>
      rw [hp] at hr
      cases hr
      obtain ⟨more, a, hl⟩ := h.short hp
      obtain ⟨word, b, hl'⟩ := (hf a).nonempty
      exact ⟨more ++ word, b, tokens ++ more, word, a, by rw [List.append_assoc], hl, hl'⟩
    | ok r =>
      rw [hp] at hr
      obtain ⟨a, later⟩ := r
      obtain ⟨front, rfl, hl⟩ := h.sound hp
      obtain ⟨more, b, hl'⟩ := (hf a).short hr
      exact ⟨more, b, front, later ++ more, a, by rw [List.append_assoc], hl, hl'⟩

/-- Decides by what a token means; a token that means nothing is not accepted. -/
def choose (read? : Token → Option α) (missing : Token → Missing) (t : Token) : Except Missing α :=
  (read? t).elim (.error (missing t)) .ok

theorem choose_eq_ok_iff {read? : Token → Option α} {missing : Token → Missing} {t : Token}
    {a : α} :
    choose read? missing t = .ok a ↔ read? t = some a := by
  cases h : read? t <;> simp [choose, h]

/-- A parser of one token. -/
theorem take {read? : Token → Option α} (missing : Missing) (hs : ∃ t a, read? t = some a) :
    Reads (Parser.take missing read?) fun tokens a => ∃ t, tokens = [t] ∧ read? t = some a := by
  have hfirst := first (choose read? fun _ => missing) (q := Parser.take missing read?) rfl
    (fun t rest => ?_) ?_ done
  · refine hfirst.congr fun tokens a => ?_
    constructor
    · rintro ⟨t, rest, b, rfl, hc, rfl, rfl⟩
      exact ⟨t, rfl, choose_eq_ok_iff.mp hc⟩
    · rintro ⟨t, rfl, hr⟩
      exact ⟨t, [], a, rfl, choose_eq_ok_iff.mpr hr, rfl, rfl⟩
  · rw [Parser.take]
    cases h : read? t <;> simp [choose, h]
  · obtain ⟨t, a, hr⟩ := hs
    exact ⟨t, a, choose_eq_ok_iff.mpr hr⟩

end Reads

open Grammar

namespace Parser

theorem reads_keyword (word : String) (missing : Missing) :
    Reads (keyword word missing) fun tokens _ => ∃ t, tokens = [t] ∧ t.isKeyword word := by
  refine (Reads.take missing ⟨⟨.keyword, word, 1, 1⟩, (), by simp [Token.isKeyword]⟩).congr ?_
  simp

theorem reads_symbol (text : String) (missing : Missing) :
    Reads (symbol text missing) fun tokens _ => ∃ t, tokens = [t] ∧ t.isSymbol text := by
  refine (Reads.take missing ⟨⟨.symbol, text, 1, 1⟩, (), by simp [Token.isSymbol]⟩).congr ?_
  simp

theorem reads_eventName (after : Opener) :
    Reads (eventName after) fun tokens name =>
      ∃ t, tokens = [t] ∧ t.kind = .identifier ∧ t.value = name := by
  refine (Reads.take (.eventName after) ⟨⟨.identifier, "", 1, 1⟩, "", by simp⟩).congr ?_
  simp

theorem comparison?_eq_some_iff {t : Token} {c : Comparison} :
    comparison? t = some c ↔ Compares t c := by
  constructor
  · intro h
    rw [comparison?] at h
    split at h
    · next hk =>
      have hc := (List.find?_eq_some_iff_append.mp h).1
      exact .operator hk (Eq.symm (by simpa using hc))
    · next hk =>
      split at h
      · next hv =>
        cases h
        exact .contains (Token.isKeyword_iff.mpr ⟨hk, hv⟩)
      · cases h
    · cases h
  · intro h
    cases h with
    | operator hk hv =>
      rw [comparison?, hk]
      simp only [hv]
      cases c <;> rfl
    | contains hk =>
      obtain ⟨hk, hv⟩ := Token.isKeyword_iff.mp hk
      rw [comparison?, hk]
      simp [hv]

theorem reads_operand (after : Comparison) :
    Reads (operand after) fun tokens value => ∃ t, tokens = [t] ∧ IsValue t ∧ t.value = value := by
  refine (Reads.take (.operand after) ⟨⟨.number, "", 1, 1⟩, "", by simp⟩).congr ?_
  simp [IsValue]

/-- The keyword that ends a trigger, with the trigger. -/
theorem reads_closing (word : String) (missing : Missing) (a : α) :
    Reads (fun tokens => keyword word missing tokens >>= fun r => .ok (a, r.2))
      fun tokens b => b = a ∧ ∃ mark, tokens = [mark] ∧ mark.isKeyword word := by
  refine ((reads_keyword word missing).andThen fun _ => Reads.done a).congr fun tokens b => ?_
  constructor
  · rintro ⟨_, _, _, rfl, ⟨mark, rfl, hk⟩, rfl, rfl⟩
    exact ⟨rfl, mark, rfl, hk⟩
  · rintro ⟨rfl, mark, rfl, hk⟩
    exact ⟨[mark], [], (), rfl, ⟨mark, rfl, hk⟩, rfl, rfl⟩

/-- The token after the name of an event decides: it is the operator of a condition, or the keyword
that says there is none. -/
def afterEvent (t : Token) : Except Missing (Option Comparison) :=
  match comparison? t with
  | some operator => .ok (some operator)
  | none => if t.isKeyword "then" then .ok none else .error .consequence

/-- What is left of a trigger after that token. -/
def restOfTrigger (event : String) : Option Comparison → Parser Trigger
  | none => fun tokens => .ok (.event event none, tokens)
  | some operator => fun tokens => operand operator tokens >>= fun r =>
      keyword "then" .consequence r.2 >>= fun k =>
        .ok (.event event (some ⟨event, operator, r.1⟩), k.2)

theorem afterEvent_eq_ok_iff {t : Token} {c : Option Comparison} :
    afterEvent t = .ok c ↔
      (∃ operator, c = some operator ∧ Compares t operator) ∨ c = none ∧ t.isKeyword "then" := by
  rw [afterEvent]
  cases hc : comparison? t with
  | some operator =>
    have hop := comparison?_eq_some_iff.mp hc
    constructor
    · rintro ⟨⟩
      exact Or.inl ⟨operator, rfl, hop⟩
    · rintro (⟨other, rfl, ho⟩ | ⟨rfl, hk⟩)
      · rw [comparison?_eq_some_iff.mpr ho] at hc
        cases hc
        rfl
      · obtain ⟨hk, hv⟩ := Token.isKeyword_iff.mp hk
        simp [comparison?, hk, hv] at hc
  | none =>
    simp only
    split
    · next hk => simp [hk, ← comparison?_eq_some_iff, hc, eq_comm]
    · next hk => simp [hk, ← comparison?_eq_some_iff, hc]

theorem condition_cons (event : String) (t : Token) (rest : List Token) :
    (condition event (t :: rest) >>= fun r =>
        keyword "then" .consequence r.2 >>= fun k => .ok (Trigger.event event r.1, k.2)) =
      match afterEvent t with
      | .ok c => restOfTrigger event c rest
      | .error missing => .error ⟨missing, some t⟩ := by
  rw [condition, afterEvent]
  cases comparison? t with
  | some operator =>
    change ((operand operator rest >>= fun r =>
      Except.ok (some (⟨event, operator, r.1⟩ : Condition), r.2)) >>= _) =
        (operand operator rest >>= _)
    cases operand operator rest <;> rfl
  | none =>
    change (keyword "then" .consequence (t :: rest) >>= fun k =>
      Except.ok (Trigger.event event none, k.2)) = _
    by_cases hk : t.isKeyword "then" <;> simp [keyword, take, hk] <;> rfl

/-- The condition of an event, if there is one, and the keyword before the actions. -/
theorem reads_test (event : String) :
    Reads (fun tokens => condition event tokens >>= fun r =>
        keyword "then" .consequence r.2 >>= fun k => .ok (Trigger.event event r.1, k.2))
      fun tokens trigger => ∃ test mark c, tokens = test ++ [mark] ∧ Test event test c ∧
        mark.isKeyword "then" ∧ trigger = .event event c := by
  have hrest : ∀ c, Reads (restOfTrigger event c) (fun tokens trigger =>
      match c with
      | none => tokens = [] ∧ trigger = .event event none
      | some operator => ∃ value mark, tokens = [value, mark] ∧ IsValue value ∧
          mark.isKeyword "then" ∧
            trigger = .event event (some ⟨event, operator, value.value⟩)) := by
    intro c
    cases c with
    | none => exact Reads.done _
    | some operator =>
      refine ((reads_operand operator).andThen fun value => reads_closing "then" .consequence
        (Trigger.event event (some ⟨event, operator, value⟩))).congr fun tokens trigger => ?_
      constructor
      · rintro ⟨_, _, _, rfl, ⟨value, rfl, hv, rfl⟩, rfl, mark, rfl, hk⟩
        exact ⟨value, mark, rfl, hv, hk, rfl⟩
      · rintro ⟨value, mark, rfl, hv, hk, rfl⟩
        exact ⟨[value], [mark], value.value, rfl, ⟨value, rfl, hv, rfl⟩, rfl, mark, rfl, hk⟩
  refine (Reads.first afterEvent rfl (fun t rest => ?_) ⟨⟨.keyword, "then", 1, 1⟩, none, rfl⟩
    hrest).congr fun tokens trigger => ?_
  · rw [condition_cons]
    cases afterEvent t <;> rfl
  constructor
  · rintro ⟨t, rest, c, rfl, hc, hl⟩
    rcases afterEvent_eq_ok_iff.mp hc with ⟨operator, rfl, hop⟩ | ⟨rfl, hk⟩
    · obtain ⟨value, mark, rfl, hv, hk, rfl⟩ := hl
      exact ⟨[t, value], mark, _, rfl, .some hop hv, hk, rfl⟩
    · obtain ⟨rfl, rfl⟩ := hl
      exact ⟨[], t, none, rfl, .none, hk, rfl⟩
  · rintro ⟨test, mark, c, rfl, ht, hk, rfl⟩
    cases ht with
    | none => exact ⟨mark, [], none, rfl, afterEvent_eq_ok_iff.mpr (Or.inr ⟨rfl, hk⟩), rfl, rfl⟩
    | some hc hv =>
      exact ⟨_, [_, mark], some _, rfl, afterEvent_eq_ok_iff.mpr (Or.inl ⟨_, rfl, hc⟩),
        _, mark, rfl, hv, hk, rfl⟩

theorem reads_trigger (opener : Opener) : Reads (trigger opener) (Head opener) := by
  cases opener with
  | whenever =>
    refine ((reads_eventName .whenever).andThen reads_test).congr fun tokens trigger => ?_
    constructor
    · rintro ⟨_, _, _, rfl, ⟨event, rfl, hn, rfl⟩, test, mark, c, rfl, ht, hk, rfl⟩
      exact .whenever hn ht hk
    · intro h
      cases h with
      | whenever hn ht hk =>
        exact ⟨[_], _, _, rfl, ⟨_, rfl, hn, rfl⟩, _, _, _, rfl, ht, hk, rfl⟩
  | on =>
    refine ((reads_eventName .on).andThen fun event =>
      reads_closing "do" (.body .on) (Trigger.event event none)).congr fun tokens trigger => ?_
    constructor
    · rintro ⟨_, _, _, rfl, ⟨event, rfl, hn, rfl⟩, rfl, mark, rfl, hk⟩
      exact .on hn hk
    · intro h
      cases h with
      | on hn hk => exact ⟨[_], [_], _, rfl, ⟨_, rfl, hn, rfl⟩, rfl, _, rfl, hk⟩
  | every =>
    have hamount : Reads (take .amount fun t : Token =>
        if t.kind = .number then some t.value else none) fun tokens value =>
          ∃ t, tokens = [t] ∧ t.kind = .number ∧ t.value = value :=
      (Reads.take .amount ⟨⟨.number, "", 1, 1⟩, "", by simp⟩).congr (by simp)
    have hunit : ∀ amount, Reads (take (.unit amount) fun t : Token =>
        if t.kind = .keyword ∨ t.kind = .identifier then some t.value else none) fun tokens value =>
          ∃ t, tokens = [t] ∧ NamesUnit t ∧ t.value = value := fun amount =>
      (Reads.take (.unit amount) ⟨⟨.keyword, "", 1, 1⟩, "", by simp⟩).congr (by simp [NamesUnit])
    refine (hamount.andThen fun amount => (hunit amount).andThen fun unit =>
      reads_closing "do" (.body .every) (Trigger.schedule (amount ++ " " ++ unit))).congr ?_
    intro tokens trigger
    constructor
    · rintro ⟨_, _, _, rfl, ⟨amount, rfl, hn, rfl⟩, _, _, _, rfl, ⟨unit, rfl, hu, rfl⟩, rfl,
        mark, rfl, hk⟩
      exact .every hn hu hk
    · intro h
      cases h with
      | every hn hu hk =>
        exact ⟨[_], [_, _], _, rfl, ⟨_, rfl, hn, rfl⟩, [_], [_], _, rfl, ⟨_, rfl, hu, rfl⟩, rfl,
          _, rfl, hk⟩

theorem argument_eq_ok_iff {t : Token} {a : Argument} : argument t = .ok a ↔ Arg t a := by
  constructor
  · intro h
    rw [argument] at h
    split at h
    · next hk => cases h; exact .string hk
    · next hk =>
      split at h
      · next hd => cases h; exact .number hk hd
      · cases h
    · cases h
  · intro h
    cases h with
    | string hk => rw [argument, hk]
    | number hk hd => simp only [argument, hk, hd]

/-- A token that is no argument is told as the place of the error. -/
theorem token_of_argument_error {t : Token} {stuck : Stuck} (h : argument t = .error stuck) :
    ∃ missing, stuck = ⟨missing, some t⟩ := by
  rw [argument] at h
  split at h
  · cases h
  · split at h
    · cases h
    · cases h; exact ⟨_, rfl⟩
  · cases h; exact ⟨_, rfl⟩

/-- Arguments with the parenthesis that closes them. -/
def Closed (language : List Token → List Argument → Prop) (tokens : List Token)
    (as : List Argument) : Prop :=
  ∃ inner closing, tokens = inner ++ [closing] ∧ language inner as ∧ closing.isSymbol ")"

theorem closed_one {t closing : Token} {a : Argument} (ha : Arg t a) (hc : closing.isSymbol ")") :
    Closed ArgList [t, closing] [a] :=
  ⟨[t], closing, rfl, .one ha, hc⟩

theorem closed_more {t comma : Token} {a : Argument} {ts : List Token} {as : List Argument}
    (ha : Arg t a) (hs : comma.isSymbol ",") (h : Closed ArgList ts as) :
    Closed ArgList (t :: comma :: ts) (a :: as) := by
  obtain ⟨inner, closing, rfl, hl, hc⟩ := h
  exact ⟨t :: comma :: inner, closing, rfl, .more ha hs hl, hc⟩

theorem closed_some : ∃ word as, Closed ArgList word as := by
  have ha : Arg ⟨.string, "", 1, 1⟩ (.string "") := .string rfl
  have hc : (⟨.symbol, ")", 1, 1⟩ : Token).isSymbol ")" := rfl
  exact ⟨_, _, closed_one ha hc⟩

theorem reads_argumentsFrom : Reads argumentsFrom (Closed ArgList) where
  sound := by
    intro tokens rest as h
    fun_induction argumentsFrom tokens generalizing as rest with
    | case1 => cases h
    | case2 => cases h
    | case3 => cases h
    | case4 t a ha comma later hs more final he ih =>
      cases h
      obtain ⟨read, rfl, hr⟩ := ih he
      exact ⟨t :: comma :: read, rfl, closed_more (argument_eq_ok_iff.mp ha) hs hr⟩
    | case5 => cases h
    | case6 t a ha closing later _ hc =>
      cases h
      exact ⟨[t, closing], rfl, closed_one (argument_eq_ok_iff.mp ha) hc⟩
    | case7 => cases h
  complete := by
    rintro _ as ⟨inner, closing, rfl, hl, hc⟩ rest
    have hcomma : ¬ closing.isSymbol "," := by
      intro h
      rw [Token.isSymbol_iff] at h hc
      exact absurd (h.2.symm.trans hc.2) (by decide)
    induction hl with
    | one ha => simp [argumentsFrom, argument_eq_ok_iff.mpr ha, hcomma, hc]
    | more ha hs hl ih =>
      simp only [List.cons_append, argumentsFrom, argument_eq_ok_iff.mpr ha, hs, ↓reduceIte, ih]
  stuck := by
    intro tokens missing token h
    fun_induction argumentsFrom tokens with
    | case1 => cases h
    | case2 t later stuck he =>
      cases h
      obtain ⟨_, hm⟩ := token_of_argument_error he
      cases hm
      exact ⟨[], later, rfl, closed_some, fun rest => by simp [argumentsFrom, he]⟩
    | case3 => cases h
    | case4 => cases h
    | case5 t a ha comma later hs stuck he ih =>
      cases h
      obtain ⟨read, rest, rfl, ⟨more, as, hl⟩, hlater⟩ := ih he
      refine ⟨t :: comma :: read, rest, rfl, ⟨more, a :: as, ?_⟩, fun rest' => ?_⟩
      · exact closed_more (argument_eq_ok_iff.mp ha) hs hl
      · rw [List.cons_append, List.cons_append, argumentsFrom, ha]
        simp only [hs, ↓reduceIte, hlater rest']
    | case6 => cases h
    | case7 t a ha mark later hs hc =>
      cases h
      refine ⟨[t], later, rfl, ⟨[⟨.symbol, ")", 1, 1⟩], [a], ?_⟩, fun rest => ?_⟩
      · exact closed_one (argument_eq_ok_iff.mp ha) rfl
      · simp [argumentsFrom, ha, hs, hc]
  short := by
    intro tokens missing h
    fun_induction argumentsFrom tokens with
    | case1 => exact closed_some
    | case2 t later stuck he =>
      cases h
      obtain ⟨_, hm⟩ := token_of_argument_error he
      cases hm
    | case3 t a ha =>
      exact ⟨[⟨.symbol, ")", 1, 1⟩], [a], closed_one (argument_eq_ok_iff.mp ha) rfl⟩
    | case4 => cases h
    | case5 t a ha comma later hs stuck he ih =>
      cases h
      obtain ⟨more, as, hl⟩ := ih he
      exact ⟨more, a :: as, closed_more (argument_eq_ok_iff.mp ha) hs hl⟩
    | case6 => cases h
    | case7 => cases h

/-- What follows the parenthesis that opens a list of arguments. -/
def argumentsTail (tokens : List Token) : Except Stuck (List Argument × List Token) :=
  match tokens with
  | [] => argumentsFrom []
  | t :: later => if t.isSymbol ")" then .ok ([], later) else argumentsFrom (t :: later)

theorem not_closing_of_argList {t : Token} {ts : List Token} {as : List Argument}
    (h : ArgList (t :: ts) as) : ¬ t.isSymbol ")" := by
  intro hs
  rw [Token.isSymbol_iff] at hs
  have hk : ∀ {a}, Arg t a → t.kind ≠ .symbol := by
    intro a ha
    cases ha with
    | string hk => simp [hk]
    | number hk => simp [hk]
  cases h with
  | one ha => exact hk ha hs.1
  | more ha => exact hk ha hs.1

theorem reads_argumentsTail : Reads argumentsTail (Closed Args) where
  sound := by
    intro tokens rest as h
    cases tokens with
    | nil => cases h
    | cons t later =>
      rw [argumentsTail] at h
      split at h
      · next hc =>
        cases h
        exact ⟨[t], rfl, [], t, rfl, .none, hc⟩
      · obtain ⟨read, he, inner, closing, rfl, hl, hc⟩ := reads_argumentsFrom.sound h
        exact ⟨_, he, inner, closing, rfl, .some hl, hc⟩
  complete := by
    rintro _ as ⟨inner, closing, rfl, hl, hc⟩ rest
    cases hl with
    | none => simp [argumentsTail, hc]
    | some hl =>
      have hfrom := reads_argumentsFrom.complete ⟨inner, closing, rfl, hl, hc⟩ rest
      cases inner with
      | nil => cases hl
      | cons t inner =>
        rw [List.cons_append, List.cons_append, argumentsTail, if_neg (not_closing_of_argList hl)]
        exact hfrom
  stuck := by
    intro tokens missing token h
    cases tokens with
    | nil => cases h
    | cons t later =>
      rw [argumentsTail] at h
      split at h
      · cases h
      · next hc =>
        obtain ⟨read, rest, he, ⟨more, as, inner, closing, hi, hl, hc'⟩, hlater⟩ :=
          reads_argumentsFrom.stuck h
        refine ⟨read, rest, he, ⟨more, as, inner, closing, hi, .some hl, hc'⟩, fun rest' => ?_⟩
        cases read with
        | nil =>
          cases he
          rw [List.nil_append, argumentsTail, if_neg hc]
          exact hlater rest'
        | cons first read =>
          cases he
          rw [List.cons_append, argumentsTail, if_neg hc]
          exact hlater rest'
  short := by
    intro tokens missing h
    cases tokens with
    | nil =>
      obtain ⟨more, as, inner, closing, hi, hl, hc⟩ := reads_argumentsFrom.short h
      exact ⟨more, as, inner, closing, hi, .some hl, hc⟩
    | cons t later =>
      rw [argumentsTail] at h
      split at h
      · cases h
      · obtain ⟨more, as, inner, closing, hi, hl, hc⟩ := reads_argumentsFrom.short h
        exact ⟨more, as, inner, closing, hi, .some hl, hc⟩

theorem reads_arguments (command : String) :
    Reads (arguments command) fun tokens as => ∃ opening rest, tokens = opening :: rest ∧
      opening.isSymbol "(" ∧ Closed Args rest as := by
  have hp := (reads_symbol "(" (.argumentList command)).andThen fun _ => reads_argumentsTail
  have heq : arguments command = fun tokens =>
      symbol "(" (.argumentList command) tokens >>= fun r => argumentsTail r.2 := by
    funext tokens
    rw [arguments]
    cases symbol "(" (.argumentList command) tokens with
    | error stuck => rfl
    | ok r =>
      obtain ⟨⟨⟩, rest⟩ := r
      cases rest <;> rfl
  rw [heq]
  refine hp.congr fun tokens as => ?_
  constructor
  · rintro ⟨_, rest, _, rfl, ⟨opening, rfl, ho⟩, hl⟩
    exact ⟨opening, rest, rfl, ho, hl⟩
  · rintro ⟨opening, rest, rfl, ho, hl⟩
    exact ⟨[opening], rest, (), rfl, ⟨opening, rfl, ho⟩, hl⟩

/-- Actions with the keyword that closes their block. -/
def Ended (tokens : List Token) (actions : List Action) : Prop :=
  ∃ inner closing, tokens = inner ++ [closing] ∧ ActionList inner actions ∧
    closing.isKeyword "end"

theorem ended_nil {t : Token} (ht : t.isKeyword "end") : Ended [t] [] :=
  ⟨[], t, rfl, .nil, ht⟩

theorem ended_cons {name : Token} {call : List Token} {as : List Argument} {rest : List Token}
    {actions : List Action} (hn : name.kind = .identifier)
    (hc : ∃ opening rest, call = opening :: rest ∧ opening.isSymbol "(" ∧ Closed Args rest as)
    (hr : Ended rest actions) : Ended (name :: (call ++ rest)) (⟨name.value, as⟩ :: actions) := by
  obtain ⟨opening, _, rfl, ho, inner, closing, rfl, hl, hc⟩ := hc
  obtain ⟨more, last, rfl, hm, he⟩ := hr
  refine ⟨name :: opening :: (inner ++ closing :: more), last, ?_, .cons hn ho hl hc hm, he⟩
  simp

theorem ended_some : ∃ word as, Ended word as :=
  ⟨_, _, ended_nil (t := ⟨.keyword, "end", 1, 1⟩) rfl⟩

/-- The equations of `actions`, one for each way its first token decides. -/
theorem actions_of_end (opener : Opener) {t : Token} (ht : t.isKeyword "end") (rest : List Token) :
    actions opener (t :: rest) = .ok ([], rest) := by
  rw [actions, if_pos ht]

theorem actions_of_name (opener : Opener) {t : Token} (ht : t.kind = .identifier)
    (rest : List Token) :
    actions opener (t :: rest) = arguments t.value rest >>= fun r =>
      actions opener r.2 >>= fun m => .ok (⟨t.value, r.1⟩ :: m.1, m.2) := by
  have hne : ¬ t.isKeyword "end" := by
    intro h
    rw [Token.isKeyword_iff, ht] at h
    cases h.1
  rw [actions, if_neg hne, if_pos ht]
  split
  · next he => rw [he]; rfl
  · next later he =>
    rw [he]
    change _ = (actions opener later >>= _)
    cases actions opener later <;> rfl

theorem reads_actions (opener : Opener) : Reads (actions opener) Ended where
  sound := by
    intro tokens rest as h
    fun_induction actions opener tokens generalizing as rest with
    | case1 => cases h
    | case2 t later ht =>
      cases h
      exact ⟨[t], rfl, ended_nil ht⟩
    | case3 => cases h
    | case4 t later _ hk args after ha more final hm ih =>
      cases h
      obtain ⟨call, rfl, hc⟩ := (reads_arguments _).sound ha
      obtain ⟨read, rfl, hr⟩ := ih hm
      exact ⟨t :: (call ++ read), by simp, ended_cons hk hc hr⟩
    | case5 => cases h
    | case6 => cases h
  complete := by
    rintro _ as ⟨inner, closing, rfl, hl, hc⟩ rest
    induction hl with
    | nil => exact actions_of_end opener hc rest
    | @cons name opening closing' args more as actions hn ho hl hc' hm ih =>
      have hcall := (reads_arguments name.value).complete
        ⟨opening, args ++ [closing'], rfl, ho, args, closing', rfl, hl, hc'⟩
        (more ++ closing :: rest)
      have hsplit : (name :: opening :: (args ++ closing' :: more)) ++ [closing] ++ rest =
          name :: ((opening :: (args ++ [closing'])) ++ (more ++ closing :: rest)) := by simp
      rw [hsplit, actions_of_name opener hn, hcall]
      change (Parser.actions opener (more ++ closing :: rest) >>= _) = _
      rw [List.append_assoc, List.singleton_append] at ih
      rw [ih]
      rfl
  stuck := by
    intro tokens missing token h
    fun_induction actions opener tokens with
    | case1 => cases h
    | case2 => cases h
    | case3 t later hne hk stuck he =>
      cases h
      obtain ⟨read, rest, rfl, ⟨more, as, hc⟩, hlater⟩ := (reads_arguments _).stuck he
      obtain ⟨word, actions, hr⟩ := ended_some
      refine ⟨t :: read, rest, rfl, ⟨more ++ word, ⟨t.value, as⟩ :: actions, ?_⟩, fun rest' => ?_⟩
      · rw [List.cons_append, ← List.append_assoc]
        exact ended_cons hk hc hr
      · rw [List.cons_append, actions_of_name opener hk, hlater rest']
        rfl
    | case4 => cases h
    | case5 t later hne hk args after ha stuck he ih =>
      cases h
      obtain ⟨call, rfl, hc⟩ := (reads_arguments _).sound ha
      obtain ⟨read, rest, rfl, ⟨more, as, hr⟩, hlater⟩ := ih he
      refine ⟨t :: (call ++ read), rest, by simp, ⟨more, ⟨t.value, args⟩ :: as, ?_⟩,
        fun rest' => ?_⟩
      · rw [List.cons_append, List.append_assoc]
        exact ended_cons hk hc hr
      · rw [List.cons_append, List.append_assoc, actions_of_name opener hk,
          (reads_arguments _).complete hc]
        change (actions opener (read ++ token :: rest') >>= _) = _
        rw [hlater rest']
        rfl
    | case6 t later hne hk =>
      cases h
      refine ⟨[], later, rfl, ended_some, fun rest => ?_⟩
      rw [List.nil_append, actions, if_neg hne, if_neg hk]
  short := by
    intro tokens missing h
    fun_induction actions opener tokens with
    | case1 => exact ended_some
    | case2 => cases h
    | case3 t later hne hk stuck he =>
      cases h
      obtain ⟨more, as, hc⟩ := (reads_arguments _).short he
      obtain ⟨word, actions, hr⟩ := ended_some
      refine ⟨more ++ word, ⟨t.value, as⟩ :: actions, ?_⟩
      rw [List.cons_append, ← List.append_assoc]
      exact ended_cons hk hc hr
    | case4 => cases h
    | case5 t later hne hk args after ha stuck he ih =>
      cases h
      obtain ⟨call, rfl, hc⟩ := (reads_arguments _).sound ha
      obtain ⟨more, as, hr⟩ := ih he
      refine ⟨more, ⟨t.value, args⟩ :: as, ?_⟩
      rw [List.cons_append, List.append_assoc]
      exact ended_cons hk hc hr
    | case6 => cases h

theorem reads_blockBody (opener : Opener) : Reads (blockBody opener) (Body opener) := by
  refine ((reads_trigger opener).andThen fun trigger =>
    (reads_actions opener).andThen fun actions => Reads.done (⟨trigger, actions⟩ : Rule)).congr ?_
  intro tokens rule
  constructor
  · rintro ⟨head, _, trigger, rfl, hh, _, _, actions, rfl, ⟨list, closing, rfl, ha, hc⟩, rfl, rfl⟩
    rw [List.append_nil]
    exact .mk hh ha hc
  · intro h
    cases h with
    | mk hh ha hc =>
      exact ⟨_, _, _, rfl, hh, _, [], _, (List.append_nil _).symm, ⟨_, _, rfl, ha, hc⟩, rfl, rfl⟩

/-- The parser of one rule block reads the rule blocks of the grammar. -/
theorem reads_block : Reads block Block := by
  refine (Reads.first (Reads.choose Opener.ofToken? fun t => .opener t.value) rfl
    (fun t rest => ?_)
    ⟨⟨.keyword, "on", 1, 1⟩, .on, rfl⟩ reads_blockBody).congr fun tokens rule => ?_
  · rw [block]
    cases h : Opener.ofToken? t <;> simp [Reads.choose, h]
  · constructor
    · rintro ⟨t, rest, opener, rfl, hc, hb⟩
      exact .mk (Opener.ofToken?_eq_some_iff.mp (Reads.choose_eq_ok_iff.mp hc)) hb
    · intro h
      cases h with
      | mk hw hb =>
        exact ⟨_, _, _, rfl, Reads.choose_eq_ok_iff.mpr (Opener.ofToken?_eq_some_iff.mpr hw), hb⟩

end Parser
end Automation
