import Automation.Proofs.Routine.Weave
import Mathlib.Data.List.Count

/-!
# Room for counting

Routines share counters that end at a limit, and each of them counts once in one of these. What a
routine does at a full counter is a matter of its own. But if at the start every counter has room
for all routines that count in it, none of them ever finds its counter full: a routine that has not
counted yet holds a ticket, and the tickets for a counter never outnumber the room that is left.
Then the routines take the same turns as others that do not look whether there is room.
-/
namespace Automation

open Routine

variable {σ α κ : Type} [DecidableEq κ]

/-- A commit that takes no counter further. -/
def Idles (count : σ → κ → Nat) (update : σ → σ) : Prop := ∀ s k, count (update s) k ≤ count s k

/-- A commit that takes one counter further by one at most, and no other. -/
def CountsIn (count : σ → κ → Nat) (k : κ) (update : σ → σ) : Prop :=
  ∀ s other, count (update s) other ≤ count s other + if other = k then 1 else 0

/-- The routines do the same as long as the first finds its counter below the limit; they count in
it once at most. -/
inductive Mirrors (count : σ → κ → Nat) (limit : Nat) (k : κ) :
    Routine σ α → Routine σ α → Prop where
  | done (a : α) : Mirrors count limit k (.done a) (.done a)
  | crash (message : String) : Mirrors count limit k (.crash message) (.crash message)
  | commit {update : σ → σ} {next follow : σ → Routine σ α} (hk : Idles count update)
      (hn : ∀ s, Mirrors count limit k (next s) (follow s)) :
      Mirrors count limit k (.commit update next) (.commit update follow)
  | pause {length : Duration} {next follow : Routine σ α} (h : Mirrors count limit k next follow) :
      Mirrors count limit k (.pause length next) (.pause length follow)
  | count {update : σ → σ} {next follow : σ → Routine σ α} (hk : CountsIn count k update)
      (hn : ∀ s, count s k + 1 < limit → next s = follow s)
      (hf : ∀ s, Commits (Idles count) (follow s)) :
      Mirrors count limit k (.commit update next) (.commit update follow)

namespace Mirrors

variable {count : σ → κ → Nat} {limit : Nat} {k : κ}

theorem bind {β : Type} {p : Routine σ β} {f g : β → Routine σ α} (h : Commits (Idles count) p)
    (hf : ∀ b, Mirrors count limit k (f b) (g b)) :
    Mirrors count limit k (p >>= f) (p >>= g) := by
  change Mirrors count limit k (p.bind f) (p.bind g)
  induction h with
  | done b => exact hf b
  | crash message => exact .crash message
  | commit hk hn ih => exact .commit hk ih
  | pause h ih => exact .pause ih

/-- By itself a routine finds the room that there was at the start. -/
theorem runAlone {p q : Routine σ α} (h : Mirrors count limit k p q) {s : σ}
    (hs : count s k + 1 < limit) : p.runAlone s = q.runAlone s := by
  induction h generalizing s with
  | done a => rfl
  | crash message => rfl
  | commit hk hn ih => exact ih s (Nat.lt_of_le_of_lt (Nat.add_le_add_right (hk s k) 1) hs)
  | pause h ih => rw [Routine.runAlone, Routine.runAlone, ih hs]
  | @count update next follow hk hn hf => rw [Routine.runAlone, Routine.runAlone, hn s hs]

end Mirrors

/-- A strand of a routine and one of a routine that does not look for room. With a ticket the first
may still count. -/
inductive Twins (count : σ → κ → Nat) (limit : Nat) :
    Option κ → Strand σ α → Strand σ α → Prop where
  | going {k : κ} {due : Nat} {p q : Routine σ α} (h : Mirrors count limit k p q) :
      Twins count limit (some k) (.underway due p) (.underway due q)
  | counted {due : Nat} {p : Routine σ α} (h : Commits (Idles count) p) :
      Twins count limit none (.underway due p) (.underway due p)
  | ended {ticket : Option κ} {time : Nat} {outcome : Except String α} :
      Twins count limit ticket (.ended time outcome) (.ended time outcome)

/-- Two such strands. -/
structure Twin (count : σ → κ → Nat) (limit : Nat) (α : Type) where
  ticket : Option κ
  here : Strand σ α
  there : Strand σ α
  twins : Twins count limit ticket here there

namespace Weave

variable {count : σ → κ → Nat} {limit : Nat}

/-- Routines side by side, and others that do not look for room. There is room for all that have not
counted yet. -/
structure Mirrored (twins : List (Twin count limit α)) (w mirror : Weave σ α) : Prop where
  here : w.strands = twins.map Twin.here
  there : mirror = ⟨w.now, w.state, twins.map Twin.there⟩
  room : ∀ k, count w.state k + (twins.map Twin.ticket).count (some k) < limit

variable {twins : List (Twin count limit α)} {w next mirror : Weave σ α}

theorem count_set {β : Type} [BEq β] {l : List β} {i : Nat} {old : β} (h : l[i]? = some old)
    (new a : β) : (l.set i new).count a + [old].count a = l.count a + [new].count a := by
  have hperm := (perm_set h new).count_eq a
  rwa [List.count_append, List.count_append] at hperm

/-- The strands that are left after a step of one of them, if its step leaves room. -/
theorem Mirrored.set (h : Mirrored twins w mirror) {i : Nat} {old new : Twin count limit α}
    (hi : twins[i]? = some old) (now : Nat) {s : σ}
    (hroom : ∀ k, count s k + [new.ticket].count (some k) ≤
      count w.state k + [old.ticket].count (some k)) :
    Mirrored (twins.set i new) ⟨now, s, w.strands.set i new.here⟩
      ⟨now, s, mirror.strands.set i new.there⟩ := by
  refine ⟨?_, ?_, fun k => ?_⟩
  · rw [List.map_set, ← h.here]
  · rw [List.map_set, h.there]
  · have hticket : (twins.map Twin.ticket)[i]? = some old.ticket := by
      rw [List.getElem?_map, hi]
      rfl
    have hcount := count_set hticket new.ticket (some k)
    have hleft := h.room k
    have hstep := hroom k
    rw [List.map_set]
    show count s k + _ < limit
    omega

/-- The routines wait for the same time. -/
theorem Mirrored.waits (h : Mirrored twins w mirror) {time : Nat} (hw : w.Waits time) :
    mirror.Waits time := by
  intro due rest hmem
  rw [h.there] at hmem
  obtain ⟨twin, htwin, he⟩ := List.mem_map.mp hmem
  have hhere : twin.here ∈ w.strands := h.here ▸ List.mem_map_of_mem htwin
  obtain ⟨ticket, here, there, twins⟩ := twin
  dsimp only at he hhere
  subst he
  cases twins with
  | going hmirrors => exact hw due _ hhere
  | counted hcommits => exact hw due _ hhere

theorem Twins.exists_underway {ticket : Option κ} {due : Nat} {p : Routine σ α}
    {there : Strand σ α} (h : Twins count limit ticket (.underway due p) there) :
    ∃ q, there = .underway due q := by
  cases h with
  | going h => exact ⟨_, rfl⟩
  | counted h => exact ⟨p, rfl⟩

theorem Twins.eq_of_ended {ticket : Option κ} {time : Nat} {outcome : Except String α}
    {there : Strand σ α} (h : Twins count limit ticket (.ended time outcome) there) :
    there = .ended time outcome := by
  cases h with
  | ended => rfl

/-- What a step of a strand leaves of it and of its twin, and of the room. -/
theorem Twins.act {ticket : Option κ} {due : Nat} {p q : Routine σ α}
    (h : Twins count limit ticket (.underway due p) (.underway due q)) (now : Nat) {s : σ}
    (hroom : ∀ k ∈ ticket, count s k + 1 < limit) :
    ∃ new : Twin count limit α, new.here = (Strand.act now s p).1 ∧
      new.there = (Strand.act now s q).1 ∧ (Strand.act now s q).2 = (Strand.act now s p).2 ∧
      ∀ k, count (Strand.act now s p).2 k + [new.ticket].count (some k) ≤
        count s k + [ticket].count (some k) := by
  cases h with
  | @going k due p q h =>
    cases h with
    | done a => exact ⟨⟨some k, _, _, .ended⟩, rfl, rfl, rfl, fun _ => Nat.le_refl _⟩
    | crash message => exact ⟨⟨some k, _, _, .ended⟩, rfl, rfl, rfl, fun _ => Nat.le_refl _⟩
    | commit hk hn =>
      exact ⟨⟨some k, _, _, .going (hn s)⟩, rfl, rfl, rfl, fun other =>
        Nat.add_le_add_right (hk s other) _⟩
    | pause h => exact ⟨⟨some k, _, _, .going h⟩, rfl, rfl, rfl, fun _ => Nat.le_refl _⟩
    | @count update next follow hk hn hf =>
      -- the ticket is given up for the count
      refine ⟨⟨none, .underway now (follow s), _, .counted (hf s)⟩, ?_, rfl, rfl, fun other => ?_⟩
      · rw [Strand.act, hn s (hroom k rfl)]
      · have hcount := hk s other
        by_cases hother : other = k
        · rw [if_pos hother] at hcount
          simpa [hother, Strand.act] using hcount
        · rw [if_neg hother] at hcount
          simpa [Ne.symm hother, hother, Strand.act] using hcount
  | counted h =>
    cases h with
    | done a => exact ⟨⟨none, _, _, .ended⟩, rfl, rfl, rfl, fun _ => Nat.le_refl _⟩
    | crash message => exact ⟨⟨none, _, _, .ended⟩, rfl, rfl, rfl, fun _ => Nat.le_refl _⟩
    | commit hk hn =>
      exact ⟨⟨none, _, _, .counted (hn s)⟩, rfl, rfl, rfl, fun other =>
        Nat.add_le_add_right (hk s other) _⟩
    | pause h => exact ⟨⟨none, _, _, .counted h⟩, rfl, rfl, rfl, fun _ => Nat.le_refl _⟩

theorem Step.mirrored (hs : Step w next) (h : Mirrored twins w mirror) :
    ∃ (later : List (Twin count limit α)) (after : Weave σ α),
      Step mirror after ∧ Mirrored later next after := by
  cases hs with
  | @turn i due rest hi hw =>
    rw [h.here, List.getElem?_map, Option.map_eq_some_iff] at hi
    obtain ⟨twin, htwin, hhere⟩ := hi
    have hother : mirror.strands[i]? = some twin.there := by
      rw [h.there, List.getElem?_map, htwin]
      rfl
    have hroom : ∀ k ∈ twin.ticket, count w.state k + 1 < limit := by
      intro k hk
      have hmem : some k ∈ twins.map Twin.ticket :=
        List.mem_map.mpr ⟨twin, List.mem_of_getElem? htwin, hk⟩
      have hpos := List.count_pos_iff.mpr hmem
      have hleft := h.room k
      omega
    have htwins := twin.twins
    rw [hhere] at htwins
    obtain ⟨q, hq⟩ := Twins.exists_underway htwins
    rw [hq] at htwins
    obtain ⟨new, hnew, hnewOther, hsame, hcount⟩ := Twins.act htwins (max w.now due) hroom
    rw [hq] at hother
    have hstep := Step.turn hother (h.waits hw)
    have hnow : mirror.now = w.now := by rw [h.there]
    have hstate : mirror.state = w.state := by rw [h.there]
    rw [hnow, hstate, hsame, ← hnewOther] at hstep
    rw [← hnew]
    exact ⟨_, _, hstep, h.set htwin _ hcount⟩

/-- Whatever turns the routines take, the others can take them as well. -/
theorem Reaches.mirrored {may : σ → σ → Prop} {first image : Weave σ α} (h : Reaches may first w)
    (hm : ∀ s s', may s s' → ∀ k, count s' k ≤ count s k) (hfirst : Mirrored twins first image) :
    ∃ (later : List (Twin count limit α)) (mirror : Weave σ α),
      Reaches may image mirror ∧ Mirrored later w mirror := by
  induction h with
  | refl => exact ⟨twins, image, .refl, hfirst⟩
  | step h hs ih =>
    obtain ⟨later, mirror, hmirror, hw⟩ := ih
    obtain ⟨last, after, hstep, hnext⟩ := hs.mirrored hw
    exact ⟨last, after, hmirror.step hstep, hnext⟩
  | @others w s h ho ih =>
    obtain ⟨later, mirror, hmirror, hw⟩ := ih
    have hstate : mirror.state = w.state := by rw [hw.there]
    refine ⟨later, { mirror with state := s }, hmirror.others (hstate ▸ ho), hw.here, ?_,
      fun k => ?_⟩
    · rw [hw.there]
    · exact Nat.lt_of_le_of_lt (Nat.add_le_add_right (hm _ _ ho k) _) (hw.room k)

/-- Routines that all find room end as they would if they did not look for it. -/
theorem Reaches.of_room {ι : Type} {may : σ → σ → Prop} {began : Nat} {s : σ} {tasks : List ι}
    {run plain : ι → Routine σ α} {subject : ι → κ}
    (h : Reaches may (start began s (tasks.map run)) w)
    (hm : ∀ s s', may s s' → ∀ k, count s' k ≤ count s k)
    (hmirrors : ∀ task, Mirrors count limit (subject task) (run task) (plain task))
    (hroom : ∀ k, count s k + tasks.countP (fun task => subject task = k) < limit) (ho : w.Over) :
    Reaches may (start began s (tasks.map plain)) w := by
  let twin (task : ι) : Twin count limit α :=
    ⟨some (subject task), .underway began (run task), .underway began (plain task),
      .going (hmirrors task)⟩
  have hfirst : Mirrored (tasks.map twin) (start began s (tasks.map run))
      (start began s (tasks.map plain)) := by
    refine ⟨?_, ?_, fun k => ?_⟩
    · rw [start, List.map_map, List.map_map]
      rfl
    · rw [start, List.map_map, List.map_map]
      rfl
    · have htickets : ((tasks.map twin).map Twin.ticket).count (some k) =
          tasks.countP fun task => subject task = k := by
        rw [List.map_map, List.count, List.countP_map]
        refine List.countP_congr fun task _ => ?_
        simp [twin]
      rw [htickets]
      exact hroom k
  obtain ⟨twins, mirror, hmirror, hw⟩ := h.mirrored hm hfirst
  have hsame : mirror = w := by
    have hstrands : twins.map Twin.there = w.strands := by
      rw [hw.here]
      refine List.map_congr_left fun twin htwin => ?_
      obtain ⟨time, outcome, hended⟩ := ho twin.here (hw.here ▸ List.mem_map_of_mem htwin)
      have htwins := twin.twins
      rw [hended] at htwins
      exact (Twins.eq_of_ended htwins).trans hended.symm
    rw [hw.there, hstrands]
  exact hsame ▸ hmirror

end Weave
end Automation
