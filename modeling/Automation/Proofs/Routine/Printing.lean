import Automation.Proofs.Routine.Awakening

/-!
# Routines that print

A routine prints if it puts lines at the end of a list in the state, and what it prints and comes to
is the same whatever others do meanwhile. In a sequence the lines of the second part follow those of
the first. Side by side the lines of the routines mix; if each of them is noted with the number of
the routine that printed it, then what stands under a number is what that routine prints, in its own
order, once.
-/
namespace Automation

variable {σ τ α β ι : Type}

namespace Routine

/-- Whatever others do to the state, the routine makes these pauses, prints these lines and then
finishes with this result. -/
inductive Prints (view : σ → List ι) : Routine σ α → List Duration → List ι → α → Prop where
  | done (a : α) : Prints view (.done a) [] [] a
  | print {update : σ → σ} {next : σ → Routine σ α} {pauses : List Duration} {line : ι}
      {lines : List ι} {a : α} (hk : ∀ s, view (update s) = view s ++ [line])
      (hn : ∀ s, Prints view (next s) pauses lines a) :
      Prints view (.commit update next) pauses (line :: lines) a
  | silent {update : σ → σ} {next : σ → Routine σ α} {pauses : List Duration} {lines : List ι}
      {a : α} (hk : ∀ s, view (update s) = view s) (hn : ∀ s, Prints view (next s) pauses lines a) :
      Prints view (.commit update next) pauses lines a
  | pause {length : Duration} {next : Routine σ α} {pauses : List Duration} {lines : List ι}
      {a : α} (h : Prints view next pauses lines a) :
      Prints view (.pause length next) (length :: pauses) lines a

namespace Prints

variable {view : σ → List ι} {p : Routine σ α} {pauses : List Duration} {lines : List ι} {a : α}

theorem bind {f : α → Routine σ β} {later : List Duration} {more : List ι} {b : β}
    (h : Prints view p pauses lines a) (hf : Prints view (f a) later more b) :
    Prints view (p >>= f) (pauses ++ later) (lines ++ more) b := by
  change Prints view (p.bind f) _ _ b
  induction h with
  | done a => exact hf
  | print hk hn ih => exact .print hk fun s => ih s hf
  | silent hk hn ih => exact .silent hk fun s => ih s hf
  | pause h ih => exact .pause (ih hf)

/-- A sequence whose second part neither pauses nor prints. -/
theorem andThen {f : α → Routine σ β} {b : β} (h : Prints view p pauses lines a)
    (hf : Prints view (f a) [] [] b) : Prints view (p >>= f) pauses lines b := by
  have hboth := h.bind hf
  rwa [List.append_nil, List.append_nil] at hboth

theorem within {part : τ → σ} {replace : τ → σ → τ} (hpart : IsPart part replace)
    (h : Prints view p pauses lines a) :
    Prints (fun t => view (part t)) (p.within part replace) pauses lines a := by
  induction h with
  | done a => exact .done a
  | print hk hn ih =>
    refine .print (fun t => ?_) fun t => ih (part t)
    rw [hpart.part_replace, hk]
  | silent hk hn ih =>
    refine .silent (fun t => ?_) fun t => ih (part t)
    rw [hpart.part_replace, hk]
  | pause h ih => exact .pause ih

theorem guarded (h : Prints view p pauses lines a) :
    Prints view p.guarded pauses lines (.ok a) := by
  induction h with
  | done a => exact .done _
  | print hk hn ih => exact .print hk ih
  | silent hk hn ih => exact .silent hk ih
  | pause h ih => exact .pause ih

/-- A routine that has the state to itself. -/
theorem runAlone (h : Prints view p pauses lines a) (s : σ) :
    p.runAlone s = ⟨.ok a, (p.runAlone s).state, pauses⟩ ∧
      view (p.runAlone s).state = view s ++ lines := by
  induction h generalizing s with
  | done a => exact ⟨rfl, (List.append_nil _).symm⟩
  | @print update next pauses line lines a hk hn ih =>
    refine ⟨(ih s (update s)).1, (ih s (update s)).2.trans ?_⟩
    rw [hk, List.append_assoc, List.singleton_append]
  | @silent update next pauses lines a hk hn ih =>
    exact ⟨(ih s (update s)).1, (ih s (update s)).2.trans (congrArg (· ++ lines) (hk s))⟩
  | @pause length next pauses lines a h ih =>
    refine ⟨?_, (ih s).2⟩
    rw [Routine.runAlone, (ih s).1]

theorem naps_le (h : Prints view p pauses lines a) : p.naps ≤ pauses.length := by
  induction h with
  | done a => exact bot_le
  | print hk hn ih => exact iSup_le ih
  | silent hk hn ih => exact iSup_le ih
  | pause h ih =>
    rw [naps, List.length_cons, Nat.cast_succ]
    exact add_le_add_left ih 1

end Prints
end Routine

open Routine Weave

/-- What a routine prints and comes to, under a number of its own. -/
structure Voice (ι α : Type) where
  number : Nat
  lines : List ι
  result : α

/-- The lines that stand under a number. -/
def linesOf (number : Nat) (log : List (Nat × ι)) : List ι :=
  (log.filter fun entry => entry.1 = number).map Prod.snd

/-- Lines with the number of the routine that printed them. -/
def signed (number : Nat) (lines : List ι) : List (Nat × ι) := lines.map fun line => (number, line)

section Lines

variable {number other : Nat}

@[simp] theorem map_snd_signed (number : Nat) (lines : List ι) :
    (signed number lines).map Prod.snd = lines := by
  rw [signed, List.map_map]
  exact List.map_id lines

@[simp] theorem map_fst_signed (number : Nat) (lines : List ι) :
    (signed number lines).map Prod.fst = List.replicate lines.length number := by
  rw [signed, List.map_map]
  exact List.map_const'

theorem linesOf_append (number : Nat) (log more : List (Nat × ι)) :
    linesOf number (log ++ more) = linesOf number log ++ linesOf number more := by
  rw [linesOf, List.filter_append, List.map_append]
  rfl

theorem linesOf_of_forall_ne {log : List (Nat × ι)} (h : ∀ entry ∈ log, entry.1 ≠ number) :
    linesOf number log = [] := by
  rw [linesOf, List.filter_eq_nil_iff.mpr fun entry hmem => by simpa using h entry hmem]
  rfl

@[simp] theorem linesOf_signed (number : Nat) (lines : List ι) :
    linesOf number (signed number lines) = lines := by
  have hall : (signed number lines).filter (fun entry => entry.1 = number) =
      signed number lines :=
    List.filter_eq_self.mpr (List.forall_mem_map.mpr fun _ _ => decide_eq_true rfl)
  rw [linesOf, hall, map_snd_signed]

theorem linesOf_signed_of_ne (h : other ≠ number) (lines : List ι) :
    linesOf number (signed other lines) = [] :=
  linesOf_of_forall_ne (List.forall_mem_map.mpr fun _ _ => h)

end Lines

/-- How far a routine has come that has printed some of the lines of its voice. -/
inductive Speaks (view : σ → List ι) (voice : Voice ι α) (printed : List ι) :
    Strand σ α → Prop where
  | underway {due : Nat} {rest : Routine σ α} {pauses : List Duration} {left : List ι}
      (h : Prints view rest pauses left voice.result) (hl : printed ++ left = voice.lines) :
      Speaks view voice printed (.underway due rest)
  | ended (time : Nat) (hl : printed = voice.lines) :
      Speaks view voice printed (.ended time (.ok voice.result))

/-- Routines side by side with what they have printed, each line under the number of its routine. -/
structure Chorus (view : σ → List ι) (before : List ι) (voices : List (Voice ι α))
    (log : List (Nat × ι)) (w : Weave σ α) : Prop where
  written : view w.state = before ++ log.map Prod.snd
  owned : ∀ entry ∈ log, ∃ voice ∈ voices, entry.1 = voice.number
  length : voices.length = w.strands.length
  strands : ∀ (i : Nat) voice strand, voices[i]? = some voice → w.strands[i]? = some strand →
    Speaks view voice (linesOf voice.number log) strand

namespace Chorus

variable {view : σ → List ι} {before : List ι} {voices : List (Voice ι α)} {log : List (Nat × ι)}
  {w next : Weave σ α}

theorem of_start {s : σ} {routines : List (Routine σ α)} (started : Nat)
    (h : List.Forall₂ (fun voice p => ∃ pauses, Prints view p pauses voice.lines voice.result)
      voices routines) :
    Chorus view (view s) voices [] (Weave.start started s routines) := by
  refine ⟨(List.append_nil _).symm, List.forall_mem_nil _, ?_, ?_⟩
  · rw [Weave.start, List.length_map, h.length_eq]
  · intro i voice strand hvoice hstrand
    rw [Weave.start, List.getElem?_map, Option.map_eq_some_iff] at hstrand
    obtain ⟨p, hp, rfl⟩ := hstrand
    obtain ⟨hiv, rfl⟩ := List.getElem?_eq_some_iff.mp hvoice
    obtain ⟨hip, rfl⟩ := List.getElem?_eq_some_iff.mp hp
    obtain ⟨pauses, hprints⟩ := (List.forall₂_iff_get.mp h).2 i hiv hip
    exact .underway hprints (List.nil_append _)

/-- One of the routines goes on, and whatever it prints is noted under its number. -/
theorem set (h : Chorus view before voices log w)
    (hn : (voices.map Voice.number).Nodup) {i : Nat} {voice : Voice ι α}
    (hvoice : voices[i]? = some voice) {now : Nat} {s : σ} {strand : Strand σ α} {lines : List ι}
    (hview : view s = view w.state ++ lines)
    (hs : Speaks view voice (linesOf voice.number log ++ lines) strand) :
    Chorus view before voices (log ++ signed voice.number lines)
      ⟨now, s, w.strands.set i strand⟩ := by
  constructor
  · rw [hview, h.written, List.map_append, map_snd_signed, List.append_assoc]
  · refine List.forall_mem_append.mpr ⟨h.owned, List.forall_mem_map.mpr fun _ _ => ?_⟩
    exact ⟨voice, List.mem_of_getElem? hvoice, rfl⟩
  · rw [List.length_set]
    exact h.length
  · intro j other there hother hthere
    rw [linesOf_append]
    by_cases hij : i = j
    · subst hij
      obtain rfl := Option.some.inj (hvoice.symm.trans hother)
      obtain ⟨hlt, -⟩ := List.getElem?_eq_some_iff.mp hvoice
      rw [List.getElem?_set_self (h.length ▸ hlt)] at hthere
      obtain rfl := Option.some.inj hthere
      rw [linesOf_signed]
      exact hs
    · -- no other routine has this number
      have hne : voice.number ≠ other.number := by
        intro he
        have hi : (voices.map Voice.number)[i]? = some voice.number := by
          rw [List.getElem?_map, hvoice, Option.map_some]
        have hj : (voices.map Voice.number)[j]? = some voice.number := by
          rw [List.getElem?_map, hother, Option.map_some, he]
        obtain ⟨hlt, -⟩ := List.getElem?_eq_some_iff.mp hi
        exact hij ((List.getElem?_inj hlt hn).mp (hi.trans hj.symm))
      rw [linesOf_signed_of_ne hne, List.append_nil]
      rw [List.getElem?_set_ne hij] at hthere
      exact h.strands j other there hother hthere

theorem step (h : Chorus view before voices log w) (hn : (voices.map Voice.number).Nodup)
    (hs : Step w next) : ∃ log, Chorus view before voices log next := by
  cases hs with
  | @turn i due rest hi hw =>
    obtain ⟨hlt, -⟩ := List.getElem?_eq_some_iff.mp hi
    obtain ⟨voice, hvoice⟩ : ∃ voice, voices[i]? = some voice :=
      ⟨_, List.getElem?_eq_getElem (h.length ▸ hlt)⟩
    obtain ⟨hprints, hl⟩ := h.strands i voice _ hvoice hi
    cases hprints with
    | done => exact ⟨_, h.set hn hvoice (List.append_nil _).symm (.ended _ (by simpa using hl))⟩
    | print hk hnext =>
      exact ⟨_, h.set hn hvoice (hk _) (.underway (hnext _) (by simpa using hl))⟩
    | silent hk hnext =>
      exact ⟨_, h.set hn hvoice ((hk _).trans (List.append_nil _).symm)
        (.underway (hnext _) (by simpa using hl))⟩
    | pause hp =>
      exact ⟨_, h.set hn hvoice (List.append_nil _).symm (.underway hp (by simpa using hl))⟩

/-- Whoever takes turns, as long as nobody else prints. -/
theorem reaches {may : σ → σ → Prop} {first : Weave σ α}
    (h : Chorus view before voices [] first) (hn : (voices.map Voice.number).Nodup)
    (hmay : ∀ s s', may s s' → view s' = view s) (hr : Reaches may first w) :
    ∃ log, Chorus view before voices log w := by
  induction hr with
  | refl => exact ⟨[], h⟩
  | step _ hs ih =>
    obtain ⟨log, hlog⟩ := ih
    exact hlog.step hn hs
  | others _ hm ih =>
    obtain ⟨log, hlog⟩ := ih
    exact ⟨log, (hmay _ _ hm).trans hlog.written, hlog.owned, hlog.length, hlog.strands⟩

/-- When all is over everybody has printed all of their lines. -/
theorem of_over (h : Chorus view before voices log w) (ho : w.Over) :
    (∀ voice ∈ voices, linesOf voice.number log = voice.lines) ∧
      w.outcomes = voices.map fun voice => .ok voice.result := by
  have hended : List.Forall₂ (fun voice strand => linesOf voice.number log = voice.lines ∧
      ∃ time, strand = .ended time (.ok voice.result)) voices w.strands := by
    rw [List.forall₂_iff_get]
    refine ⟨h.length, fun i hi hj => ?_⟩
    have hspeaks := h.strands i _ _ (List.getElem?_eq_getElem hi) (List.getElem?_eq_getElem hj)
    obtain ⟨time, outcome, he⟩ := ho _ (List.getElem_mem hj)
    rw [he] at hspeaks
    simp only [List.get_eq_getElem, he]
    cases hspeaks with
    | ended _ hl => exact ⟨hl, time, rfl⟩
  refine ⟨fun voice hmem => ?_, ?_⟩
  · obtain ⟨i, hi, rfl⟩ := List.getElem_of_mem hmem
    exact ((List.forall₂_iff_get.mp hended).2 i hi (h.length ▸ hi)).1
  · rw [outcomes]
    clear h ho
    generalize w.strands = strands at hended
    induction hended with
    | nil => rfl
    | cons hfirst _ ih =>
      obtain ⟨-, time, rfl⟩ := hfirst
      exact congrArg (List.cons _) ih

end Chorus

/-- Routines that all print, and come to their ends, have printed all of their lines then. -/
theorem Weave.exists_log {view : σ → List ι} {voices : List (Voice ι α)} {may : σ → σ → Prop}
    {started : Nat} {s : σ} {routines : List (Routine σ α)} {w : Weave σ α}
    (h : List.Forall₂ (fun voice p => ∃ pauses, Prints view p pauses voice.lines voice.result)
      voices routines)
    (hn : (voices.map Voice.number).Nodup) (hmay : ∀ s s', may s s' → view s' = view s)
    (hw : Reaches may (Weave.start started s routines) w) (ho : w.Over) :
    ∃ log, view w.state = view s ++ log.map Prod.snd ∧
      (∀ entry ∈ log, ∃ voice ∈ voices, entry.1 = voice.number) ∧
      (∀ voice ∈ voices, linesOf voice.number log = voice.lines) ∧
      w.outcomes = voices.map fun voice => .ok voice.result := by
  obtain ⟨log, hlog⟩ := (Chorus.of_start started h).reaches hn hmay hw
  obtain ⟨hlines, hall⟩ := hlog.of_over ho
  exact ⟨log, hlog.written, hlog.owned, hlines, hall⟩

end Automation
