import Automation.Proofs.Routine.Timeline

/-!
# Changes of one value in turns

Routines that share a state each make some changes of one value in it, in an order of their own, and
answer with the value as it was after their last one. What comes of them side by side is what comes
of their changes in some order that keeps the order of every routine, and each of these orders is
possible.
-/
namespace Automation

open Relation Weave

variable {σ α β : Type}

/-- The changes that are still to be made, and the value after the last one that was. -/
structure Agenda (α : Type) where
  todo : List (α → α)
  seen : α

/-- What can become of a value, and what was seen of it last, when the changes are made in turns. -/
inductive Mixed : α → List (Agenda α) → α → List α → Prop where
  | finished {value : α} {agendas : List (Agenda α)} (h : ∀ agenda ∈ agendas, agenda.todo = []) :
      Mixed value agendas value (agendas.map Agenda.seen)
  | turn {value last seen : α} {agendas : List (Agenda α)} {answers : List α} {i : Nat}
      {change : α → α} {rest : List (α → α)} (hi : agendas[i]? = some ⟨change :: rest, seen⟩)
      (h : Mixed (change value) (agendas.set i ⟨rest, change value⟩) last answers) :
      Mixed value agendas last answers

section Pairs

variable {value a b last : α} {answers : List α} {f g : α → α} {fs gs : List (α → α)}

/-- Of two routines the first or the second goes on, unless both have made all their changes. -/
theorem mixed_pair_iff {left right : Agenda α} :
    Mixed value [left, right] last answers ↔
      (left.todo = [] ∧ right.todo = [] ∧ last = value ∧ answers = [left.seen, right.seen]) ∨
      (∃ f fs, left.todo = f :: fs ∧ Mixed (f value) [⟨fs, f value⟩, right] last answers) ∨
      ∃ g gs, right.todo = g :: gs ∧ Mixed (g value) [left, ⟨gs, g value⟩] last answers := by
  constructor
  · intro h
    cases h with
    | finished h =>
      exact Or.inl ⟨h left (by simp), h right (by simp), rfl, rfl⟩
    | @turn _ _ seen _ _ i change rest hi h =>
      rcases i with _ | _ | i
      · obtain rfl := Option.some.inj hi
        exact Or.inr (Or.inl ⟨change, rest, rfl, h⟩)
      · obtain rfl := Option.some.inj hi
        exact Or.inr (Or.inr ⟨change, rest, rfl, h⟩)
      · cases hi
  · rintro (⟨hleft, hright, rfl, rfl⟩ | ⟨f, fs, hleft, h⟩ | ⟨g, gs, hright, h⟩)
    · exact .finished (by simp [hleft, hright])
    · obtain ⟨todo, seen⟩ := left
      obtain rfl : todo = f :: fs := hleft
      exact @Mixed.turn _ value last seen [⟨f :: fs, seen⟩, right] answers 0 f fs rfl h
    · obtain ⟨todo, seen⟩ := right
      obtain rfl : todo = g :: gs := hright
      exact @Mixed.turn _ value last seen [left, ⟨g :: gs, seen⟩] answers 1 g gs rfl h

@[simp] theorem mixed_nil_nil :
    Mixed value [⟨[], a⟩, ⟨[], b⟩] last answers ↔ last = value ∧ answers = [a, b] := by
  rw [mixed_pair_iff]
  simp

@[simp] theorem mixed_cons_nil :
    Mixed value [⟨f :: fs, a⟩, ⟨[], b⟩] last answers ↔
      Mixed (f value) [⟨fs, f value⟩, ⟨[], b⟩] last answers := by
  rw [mixed_pair_iff]
  simp

@[simp] theorem mixed_nil_cons :
    Mixed value [⟨[], a⟩, ⟨g :: gs, b⟩] last answers ↔
      Mixed (g value) [⟨[], a⟩, ⟨gs, g value⟩] last answers := by
  rw [mixed_pair_iff]
  simp

@[simp] theorem mixed_cons_cons :
    Mixed value [⟨f :: fs, a⟩, ⟨g :: gs, b⟩] last answers ↔
      Mixed (f value) [⟨fs, f value⟩, ⟨g :: gs, b⟩] last answers ∨
        Mixed (g value) [⟨f :: fs, a⟩, ⟨gs, g value⟩] last answers := by
  rw [mixed_pair_iff]
  simp

variable {f' g' : α → α}

/-- The one of two routines that makes a single change makes it before, between or after those of
the other. -/
theorem mixed_two_one :
    Mixed value [⟨[f, f'], a⟩, ⟨[g], b⟩] last answers ↔
      (last = g (f' (f value)) ∧ answers = [f' (f value), g (f' (f value))]) ∨
      (last = f' (g (f value)) ∧ answers = [f' (g (f value)), g (f value)]) ∨
      (last = f' (f (g value)) ∧ answers = [f' (f (g value)), g value]) := by
  simp only [mixed_cons_cons, mixed_nil_cons, mixed_cons_nil, mixed_nil_nil, or_assoc]

theorem mixed_one_two :
    Mixed value [⟨[f], a⟩, ⟨[g, g'], b⟩] last answers ↔
      (last = g' (g (f value)) ∧ answers = [f value, g' (g (f value))]) ∨
      (last = g' (f (g value)) ∧ answers = [f (g value), g' (f (g value))]) ∨
      (last = f (g' (g value)) ∧ answers = [f (g' (g value)), g' (g value)]) := by
  simp only [mixed_cons_cons, mixed_nil_cons, mixed_cons_nil, mixed_nil_nil]

end Pairs

/-- The routine makes the changes, looks at the state as often as it likes, and answers with what it
has seen last. -/
inductive Makes (holds : σ → α → Prop) (answer : α → β) :
    List (α → α) → α → Routine σ β → Prop where
  | done (seen : α) : Makes holds answer [] seen (.done (answer seen))
  | change {f : α → α} {fs : List (α → α)} {seen : α} {update : σ → σ} {next : σ → Routine σ β}
      (hk : ∀ s value, holds s value → holds (update s) (f value))
      (hn : ∀ s value, holds s value → Makes holds answer fs (f value) (next s)) :
      Makes holds answer (f :: fs) seen (.commit update next)
  | look {todo : List (α → α)} {seen : α} {next : σ → Routine σ β}
      (hn : ∀ s value, holds s value → Makes holds answer todo seen (next s)) :
      Makes holds answer todo seen (.commit id next)

/-- A strand that makes the changes of an agenda, or has ended with none left. -/
inductive Pursues (holds : σ → α → Prop) (answer : α → β) (now : Nat) :
    Agenda α → Strand σ β → Prop where
  | underway {todo : List (α → α)} {seen : α} {rest : Routine σ β}
      (h : Makes holds answer todo seen rest) :
      Pursues holds answer now ⟨todo, seen⟩ (.underway now rest)
  | ended (seen : α) : Pursues holds answer now ⟨[], seen⟩ (.ended now (.ok (answer seen)))

/-- Routines side by side that make the changes of their agendas. -/
structure Pursuit (holds : σ → α → Prop) (answer : α → β) (now : Nat) (value : α)
    (agendas : List (Agenda α)) (w : Weave σ β) : Prop where
  clock : w.now = now
  value : holds w.state value
  length : agendas.length = w.strands.length
  strands : ∀ (i : Nat) agenda strand, agendas[i]? = some agenda → w.strands[i]? = some strand →
    Pursues holds answer now agenda strand

variable {holds : σ → α → Prop} {answer : α → β} {now i : Nat} {value last : α}
  {agendas : List (Agenda α)} {answers : List α} {w next : Weave σ β}

namespace Pursuit

theorem of_start {s : σ} {routines : List (Routine σ β)} (hs : holds s value)
    (hl : agendas.length = routines.length)
    (h : ∀ (i : Nat) agenda routine, agendas[i]? = some agenda → routines[i]? = some routine →
      Makes holds answer agenda.todo agenda.seen routine) :
    Pursuit holds answer now value agendas (start now s routines) := by
  refine ⟨rfl, hs, by simp [start, hl], fun i agenda strand ha hstrand => ?_⟩
  rw [start, List.getElem?_map, Option.map_eq_some_iff] at hstrand
  obtain ⟨routine, hroutine, rfl⟩ := hstrand
  exact .underway (h i agenda routine ha hroutine)

theorem exists_agenda {strand : Strand σ β} (h : Pursuit holds answer now value agendas w)
    (hi : w.strands[i]? = some strand) :
    ∃ agenda, agendas[i]? = some agenda ∧ Pursues holds answer now agenda strand := by
  obtain ⟨hlt, -⟩ := List.getElem?_eq_some_iff.mp hi
  have ha := List.getElem?_eq_getElem (h.length ▸ hlt)
  exact ⟨_, ha, h.strands i _ _ ha hi⟩

theorem exists_strand {agenda : Agenda α} (h : Pursuit holds answer now value agendas w)
    (hi : agendas[i]? = some agenda) :
    ∃ strand, w.strands[i]? = some strand ∧ Pursues holds answer now agenda strand := by
  obtain ⟨hlt, -⟩ := List.getElem?_eq_some_iff.mp hi
  have hstrand := List.getElem?_eq_getElem (h.length ▸ hlt)
  exact ⟨_, hstrand, h.strands i _ _ hi hstrand⟩

theorem waits (h : Pursuit holds answer now value agendas w) : w.Waits now := by
  intro due rest hmem
  obtain ⟨i, hi⟩ := List.mem_iff_getElem?.mp hmem
  obtain ⟨agenda, -, hpursues⟩ := h.exists_agenda hi
  cases hpursues
  exact Nat.le_refl now

/-- One strand goes on with its agenda, and with the value. -/
theorem set {s : σ} {agenda : Agenda α} {strand : Strand σ β}
    (h : Pursuit holds answer now value agendas w) (hs : holds s last)
    (hp : Pursues holds answer now agenda strand) (i : Nat) :
    Pursuit holds answer now last (agendas.set i agenda) ⟨now, s, w.strands.set i strand⟩ := by
  refine ⟨rfl, hs, by simp [h.length], fun j other beside ha hstrand => ?_⟩
  by_cases hij : i = j
  · subst hij
    rw [List.getElem?_set_self'] at ha hstrand
    obtain ⟨_, -, rfl⟩ := Option.map_eq_some_iff.mp ha
    obtain ⟨_, -, rfl⟩ := Option.map_eq_some_iff.mp hstrand
    exact hp
  · rw [List.getElem?_set_ne hij] at ha hstrand
    exact h.strands j other beside ha hstrand

/-- One strand goes on and has changed nothing. -/
theorem set_same {agenda : Agenda α} {strand : Strand σ β}
    (h : Pursuit holds answer now value agendas w) (hi : agendas[i]? = some agenda)
    (hp : Pursues holds answer now agenda strand) :
    Pursuit holds answer now value agendas ⟨now, w.state, w.strands.set i strand⟩ := by
  have hset := h.set h.value hp i
  obtain ⟨hlt, rfl⟩ := List.getElem?_eq_some_iff.mp hi
  rwa [List.set_getElem_self hlt] at hset

/-- A step is a change of the value or none. -/
theorem step (h : Pursuit holds answer now value agendas w) (hs : Step w next) :
    Pursuit holds answer now value agendas next ∨
      ∃ i f fs seen, agendas[i]? = some ⟨f :: fs, seen⟩ ∧
        Pursuit holds answer now (f value) (agendas.set i ⟨fs, f value⟩) next := by
  cases hs with
  | @turn i due rest hi hw =>
    obtain ⟨agenda, ha, hpursues⟩ := h.exists_agenda hi
    cases hpursues with
    | underway hmakes =>
      rw [h.clock, Nat.max_self]
      cases hmakes with
      | done => exact Or.inl (h.set_same ha (.ended _))
      | change hk hn =>
        exact Or.inr ⟨i, _, _, _, ha, h.set (hk _ _ h.value) (.underway (hn _ _ h.value)) i⟩
      | look hn => exact Or.inl (h.set_same ha (.underway (hn _ _ h.value)))

/-- When all is over nothing is left to do, and all have answered what they have seen last. -/
theorem ended (h : Pursuit holds answer now value agendas w) (ho : w.Over) :
    (∀ agenda ∈ agendas, agenda.todo = []) ∧ w.strands.map Strand.outcome? =
      (agendas.map Agenda.seen).map fun seen => some (.ok (answer seen)) := by
  have hended : ∀ {agenda strand}, Pursues holds answer now agenda strand →
      strand ∈ w.strands →
        agenda.todo = [] ∧ strand.outcome? = some (.ok (answer agenda.seen)) := by
    intro agenda strand hpursues hmem
    obtain ⟨time, outcome, rfl⟩ := ho strand hmem
    cases hpursues with
    | ended seen => exact ⟨rfl, rfl⟩
  constructor
  · intro agenda hmem
    obtain ⟨i, hi⟩ := List.mem_iff_getElem?.mp hmem
    obtain ⟨strand, hstrand, hpursues⟩ := h.exists_strand hi
    exact (hended hpursues (List.mem_of_getElem? hstrand)).1
  · refine List.ext_getElem (by simp [h.length]) fun i hi hj => ?_
    rw [List.length_map] at hi
    have ha := List.getElem?_eq_getElem (h.length.symm ▸ hi)
    have hpursues := h.strands i _ _ ha (List.getElem?_eq_getElem hi)
    simpa using (hended hpursues (List.getElem_mem hi)).2

/-- A strand can be left to itself until it has made its next change. -/
theorem exists_turn {f : α → α} {fs : List (α → α)} {seen : α}
    (h : Pursuit holds answer now value agendas w) (hi : agendas[i]? = some ⟨f :: fs, seen⟩) :
    ∃ next, ReflTransGen Step w next ∧
      Pursuit holds answer now (f value) (agendas.set i ⟨fs, f value⟩) next := by
  obtain ⟨strand, hstrand, hpursues⟩ := h.exists_strand hi
  cases hpursues with
  | underway hmakes =>
    generalize htodo : f :: fs = todo at hmakes
    induction hmakes generalizing w with
    | done seen => cases htodo
    | change hk hn =>
      cases htodo
      exact ⟨_, .single (.due hstrand h.waits (Nat.le_of_eq h.clock)),
        h.set (hk _ _ h.value) (.underway (hn _ _ h.value)) i⟩
    | look hn ih =>
      subst htodo
      obtain ⟨next, hsteps, hnext⟩ := ih w.state value h.value
        (h.set_same hi (.underway (hn _ _ h.value))) hi
        (List.getElem?_set_self (List.getElem?_eq_some_iff.mp hstrand).1) rfl
      exact ⟨next, .head (.due hstrand h.waits (Nat.le_of_eq h.clock)) hsteps, hnext⟩

/-- Where nothing is left to do nothing is done. -/
theorem steps (h : Pursuit holds answer now value agendas w)
    (hnil : ∀ agenda ∈ agendas, agenda.todo = []) (hs : ReflTransGen Step w next) :
    Pursuit holds answer now value agendas next := by
  induction hs with
  | refl => exact h
  | tail _ hstep ih =>
    rcases ih.step hstep with hsame | ⟨i, f, fs, seen, hi, -⟩
    · exact hsame
    · cases hnil _ (List.mem_of_getElem? hi)

end Pursuit

/-- Whoever takes turns, the value and the answers in the end are those of some order of the
changes. -/
theorem Weave.Reaches.mixed {may : σ → σ → Prop} {first : Weave σ β} (h : Reaches may first w)
    (hm : ∀ s s' value, may s s' → holds s value → holds s' value)
    (hfirst : Pursuit holds answer now value agendas first) (ho : w.Over) :
    ∃ last answers, Mixed value agendas last answers ∧ holds w.state last ∧
      w.strands.map Strand.outcome? = answers.map fun seen => some (.ok (answer seen)) := by
  -- what can still come of the changes could come of them from the start
  have hgoing : ∃ here left, Pursuit holds answer now here left w ∧
      ∀ last answers, Mixed here left last answers → Mixed value agendas last answers := by
    clear ho
    induction h with
    | refl => exact ⟨value, agendas, hfirst, fun _ _ h => h⟩
    | @others w s h hother ih =>
      obtain ⟨here, left, hpursuit, hall⟩ := ih
      exact ⟨here, left, ⟨hpursuit.clock, hm w.state s here hother hpursuit.value,
        hpursuit.length, hpursuit.strands⟩, hall⟩
    | step h hstep ih =>
      obtain ⟨here, left, hpursuit, hall⟩ := ih
      rcases hpursuit.step hstep with hsame | ⟨i, f, fs, seen, hi, hturn⟩
      · exact ⟨here, left, hsame, hall⟩
      · exact ⟨_, _, hturn, fun last answers hmixed => hall last answers (.turn hi hmixed)⟩
  obtain ⟨here, left, hpursuit, hall⟩ := hgoing
  obtain ⟨hnil, hanswers⟩ := hpursuit.ended ho
  exact ⟨here, _, hall _ _ (.finished hnil), hpursuit.value, hanswers⟩

theorem Weave.exists_over (w : Weave σ β) : ∃ next, ReflTransGen Step w next ∧ next.Over := by
  induction w using (wellFounded_step (σ := σ) (α := β)).induction with
  | _ w ih =>
    rcases w.over_or_step with hover | ⟨next, hstep⟩
    · exact ⟨w, .refl, hover⟩
    · obtain ⟨last, hsteps, hover⟩ := ih next hstep
      exact ⟨last, .head hstep hsteps, hover⟩

/-- A strand that has ended is left as it is. -/
theorem Weave.getElem?_of_steps {time : Nat} {outcome : Except String β}
    (hs : ReflTransGen Step w next) (hi : w.strands[i]? = some (.ended time outcome)) :
    next.strands[i]? = some (.ended time outcome) := by
  induction hs with
  | refl => exact hi
  | tail _ hstep ih =>
    cases hstep with
    | @turn j due rest hj hw =>
      have hij : j ≠ i := by
        rintro rfl
        cases hj.symm.trans ih
      exact (List.getElem?_set_ne hij).trans ih

/-- Each order of the changes is one in which the routines can take turns. -/
theorem Pursuit.exists_of_mixed (h : Pursuit holds answer now value agendas w)
    (hm : Mixed value agendas last answers) :
    ∃ next, ReflTransGen Step w next ∧ next.Over ∧ holds next.state last ∧
      next.strands.map Strand.outcome? = answers.map fun seen => some (.ok (answer seen)) := by
  induction hm generalizing w with
  | finished hnil =>
    obtain ⟨next, hsteps, hover⟩ := exists_over w
    have hnext := h.steps hnil hsteps
    exact ⟨next, hsteps, hover, hnext.value, (hnext.ended hover).2⟩
  | turn hi _ ih =>
    obtain ⟨later, hsteps, hlater⟩ := h.exists_turn hi
    obtain ⟨next, hrest, hnext⟩ := ih hlater
    exact ⟨next, hsteps.trans hrest, hnext⟩

end Automation
