import Automation.Proofs.Engine.Task
import Automation.Proofs.Routine.Printing
import Mathlib.Data.List.Forall2
import Mathlib.Data.List.Nodup

/-!
# Runs that print

If the rules of a script print, so do its runs, and every line can be told by the rule whose run
printed it. Rules that run one after the other print one after the other, up to the first that
fails.
-/
namespace Automation.Engine

open Routine Weave

variable {ι : Type}

/-- A list in the order of another that it is made from. -/
theorem exists_of_perm_map {α β : Type} {f : β → α} {l : List α} {m : List β}
    (h : l.Perm (m.map f)) : ∃ order : List β, order.Perm m ∧ l = order.map f := by
  have hmap : List.Forall₂ (fun a b => a = f b) (m.map f) m := by
    rw [List.forall₂_map_left_iff, List.forall₂_same]
    exact fun _ _ => rfl
  obtain ⟨order, hl, horder⟩ := List.perm_comp_forall₂ h hmap
  rw [← List.forall₂_map_right_iff (R := (· = ·)), List.forall₂_eq_eq_eq] at hl
  exact ⟨order, horder, hl⟩

/-- Nothing has gone wrong with any of them. -/
theorem mapM_eq_ok {α β γ ε : Type} {f : γ → Except ε β} {g : α → β} {l : List γ} {m : List α}
    (h : l.map f = m.map fun a => .ok (g a)) : l.mapM f = .ok (m.map g) := by
  have hmap := congrArg (List.mapM id) h
  rw [List.mapM_map, List.mapM_map] at hmap
  exact hmap.trans List.mapM_pure

/-- Runs of rules, each with its number, and what they print under these numbers. Of every run
something is known about its outcome and its lines. -/
structure Accounts (account : Rule → Rule.Outcome → List ι → Prop) (numbered : List (Rule × Nat))
    (runs : List ScriptRun) (log : List (Nat × ι)) : Prop where
  distinct : (runs.map ScriptRun.ruleIndex).Nodup
  account : ∀ run ∈ runs, ∃ rule, (rule, run.ruleIndex) ∈ numbered ∧
    account rule run.outcome (linesOf run.ruleIndex log)
  owned : ∀ entry ∈ log, entry.1 ∈ runs.map ScriptRun.ruleIndex

section Accounts

variable {account : Rule → Rule.Outcome → List ι → Prop} {numbered : List (Rule × Nat)}
  {runs : List ScriptRun} {log : List (Nat × ι)}

/-- The rules are among others. -/
theorem Accounts.mono {all : List (Rule × Nat)} (h : Accounts account numbered runs log)
    (hall : numbered ⊆ all) : Accounts account all runs log := by
  refine ⟨h.distinct, fun run hrun => ?_, h.owned⟩
  obtain ⟨rule, hmem, haccount⟩ := h.account run hrun
  exact ⟨rule, hall hmem, haccount⟩

/-- Runs of all rules in any order. -/
theorem accounts_of_perm {id : Uuid} {outcome : Rule × Nat → Rule.Outcome}
    (hn : (numbered.map Prod.snd).Nodup)
    (hruns : runs.Perm (numbered.map fun entry => ⟨id, entry.2, outcome entry⟩))
    (haccount : ∀ entry ∈ numbered, account entry.1 (outcome entry) (linesOf entry.2 log))
    (howned : ∀ entry ∈ log, entry.1 ∈ numbered.map Prod.snd) :
    (runs.map ScriptRun.ruleIndex).Perm (numbered.map Prod.snd) ∧
      Accounts account numbered runs log := by
  have hindexes : (runs.map ScriptRun.ruleIndex).Perm (numbered.map Prod.snd) := by
    have hmap := hruns.map ScriptRun.ruleIndex
    rw [List.map_map] at hmap
    exact hmap
  refine ⟨hindexes, hindexes.nodup_iff.mpr hn, fun run hrun => ?_, fun entry hentry => ?_⟩
  · obtain ⟨entry, hentry, rfl⟩ := List.mem_map.mp (hruns.mem_iff.mp hrun)
    exact ⟨entry.1, hentry, haccount entry hentry⟩
  · exact hindexes.mem_iff.mpr (howned entry hentry)

end Accounts

/-- Runs of rules one after the other, from one with a number on. -/
inductive InTurn (account : Rule → Rule.Outcome → List ι → Prop) (id : Uuid) :
    Nat → List Rule → List ScriptRun → List (Nat × ι) → Prop where
  | through (index : Nat) : InTurn account id index [] [] []
  | failed {index : Nat} {rule : Rule} {rest : List Rule} {outcome : Rule.Outcome} {lines : List ι}
      (h : account rule outcome lines) (hf : ¬ outcome.succeeded) :
      InTurn account id index (rule :: rest) [⟨id, index, outcome⟩] (signed index lines)
  | succeeded {index : Nat} {rule : Rule} {rest : List Rule} {outcome : Rule.Outcome}
      {lines : List ι} {runs : List ScriptRun} {log : List (Nat × ι)}
      (h : account rule outcome lines) (hf : outcome.succeeded)
      (later : InTurn account id (index + 1) rest runs log) :
      InTurn account id index (rule :: rest) (⟨id, index, outcome⟩ :: runs)
        (signed index lines ++ log)

/-- The rules run and print in their order. Only the last run may have failed, and if it did not
then all rules have run. -/
structure InOrder (index : Nat) (rules : List Rule) (runs : List ScriptRun) (log : List (Nat × ι)) :
    Prop where
  indexes : runs.map ScriptRun.ruleIndex = List.range' index runs.length
  succeeded : ∀ run ∈ runs.dropLast, run.outcome.succeeded
  whole : (∀ run ∈ runs, run.outcome.succeeded) → runs.length = rules.length
  lines : (log.map Prod.fst).Pairwise (· ≤ ·)

namespace InTurn

variable {account : Rule → Rule.Outcome → List ι → Prop} {id : Uuid} {index : Nat}
  {rules : List Rule} {runs : List ScriptRun} {log : List (Nat × ι)}

theorem le_ruleIndex (h : InTurn account id index rules runs log) :
    ∀ run ∈ runs, index ≤ run.ruleIndex := by
  induction h with
  | through index => exact List.forall_mem_nil _
  | failed h hf => exact List.forall_mem_singleton.mpr (Nat.le_refl _)
  | succeeded h hf later ih =>
    exact List.forall_mem_cons.mpr ⟨Nat.le_refl _, fun run hrun => Nat.le_of_succ_le (ih run hrun)⟩

theorem accounts (h : InTurn account id index rules runs log) :
    Accounts account (rules.zipIdx index) runs log := by
  induction h with
  | through index => exact ⟨List.nodup_nil, List.forall_mem_nil _, List.forall_mem_nil _⟩
  | @failed index rule rest outcome lines h hf =>
    refine ⟨List.nodup_singleton _, List.forall_mem_singleton.mpr ⟨rule, ?_, ?_⟩, ?_⟩
    · exact List.mem_cons_self
    · rw [linesOf_signed]
      exact h
    · exact List.forall_mem_map.mpr fun _ _ => List.mem_cons_self
  | @succeeded index rule rest outcome lines runs log h hf later ih =>
    have habove : ∀ number ∈ runs.map ScriptRun.ruleIndex, index < number :=
      List.forall_mem_map.mpr later.le_ruleIndex
    constructor
    · exact List.nodup_cons.mpr ⟨fun hmem => Nat.lt_irrefl _ (habove _ hmem), ih.distinct⟩
    · refine List.forall_mem_cons.mpr ⟨⟨rule, List.mem_cons_self, ?_⟩, fun run hrun => ?_⟩
      · have hothers : linesOf index log = [] :=
          linesOf_of_forall_ne fun entry hentry =>
            Nat.ne_of_gt (habove _ (ih.owned entry hentry))
        rw [linesOf_append, linesOf_signed, hothers, List.append_nil]
        exact h
      · obtain ⟨other, hother, haccount⟩ := ih.account run hrun
        refine ⟨other, List.mem_cons_of_mem _ hother, ?_⟩
        rw [linesOf_append, linesOf_signed_of_ne (Nat.ne_of_lt (later.le_ruleIndex run hrun)),
          List.nil_append]
        exact haccount
    · refine List.forall_mem_append.mpr ⟨?_, fun entry hentry => ?_⟩
      · exact List.forall_mem_map.mpr fun _ _ => List.mem_cons_self
      · exact List.mem_cons_of_mem _ (ih.owned entry hentry)

theorem inOrder (h : InTurn account id index rules runs log) : InOrder index rules runs log := by
  induction h with
  | through index => exact ⟨rfl, List.forall_mem_nil _, fun _ => rfl, .nil⟩
  | @failed index rule rest outcome lines h hf =>
    refine ⟨rfl, List.forall_mem_nil _, fun hall => absurd (hall _ List.mem_cons_self) hf, ?_⟩
    rw [map_fst_signed]
    exact List.pairwise_replicate.mpr (Or.inr (Nat.le_refl index))
  | @succeeded index rule rest outcome lines runs log h hf later ih =>
    constructor
    · rw [List.map_cons, ih.indexes, List.length_cons, List.range'_succ]
    · intro run hrun
      cases runs with
      | nil => cases hrun
      | cons next runs =>
        rw [List.dropLast_cons_cons, List.mem_cons] at hrun
        rcases hrun with rfl | hrun
        · exact hf
        · exact ih.succeeded run hrun
    · intro hall
      rw [List.length_cons, List.length_cons,
        ih.whole fun run hrun => hall run (List.mem_cons_of_mem _ hrun)]
    · rw [List.map_append, List.pairwise_append]
      refine ⟨?_, ih.lines, ?_⟩
      · rw [map_fst_signed]
        exact List.pairwise_replicate.mpr (Or.inr (Nat.le_refl index))
      · intro first hfirst second hsecond
        rw [map_fst_signed] at hfirst
        rw [List.eq_of_mem_replicate hfirst]
        obtain ⟨entry, hentry, rfl⟩ := List.mem_map.mp hsecond
        obtain ⟨run, hrun, he⟩ := List.mem_map.mp (later.accounts.owned entry hentry)
        exact he ▸ Nat.le_of_succ_le (later.le_ruleIndex run hrun)

end InTurn

/-- What has been printed. -/
def State.lines (s : State (List ι)) : List ι := s.world.handlers

/-- Whatever others do, the rule prints, pauses no more often than it has actions, and comes to what
an account says. -/
def Recites (engine : Engine (List ι)) (context : Context)
    (account : Rule → Rule.Outcome → List ι → Prop) (rule : Rule) : Prop :=
  ∃ outcome pauses lines,
    Prints World.handlers (rule.run engine.registry context) pauses lines outcome ∧
      pauses.length ≤ rule.actions.length ∧ account rule outcome lines

section Runs

variable {engine : Engine (List ι)} {context : Context} {rule : Rule} {pauses : List Duration}
  {lines : List ι} {outcome : Rule.Outcome} {account : Rule → Rule.Outcome → List ι → Prop}

theorem isPart_world {η : Type} : IsPart State.world (@State.withWorld η) :=
  ⟨fun _ _ => rfl, fun _ => rfl, fun _ _ _ => rfl⟩

theorem prints_interpret
    (h : Prints World.handlers (rule.run engine.registry context) pauses lines outcome) :
    Prints State.lines (engine.interpret rule context) pauses lines outcome :=
  (h.within isPart_world).guarded.andThen (.done _)

theorem lines_countScript (id : Uuid) (now : Instant) (s : State (List ι)) :
    (countScript id now s).lines = s.lines := by
  rw [countScript]
  split
  · rfl
  · rfl

/-- A run is counted when it is over, and that prints nothing. -/
theorem prints_countedRule
    (h : Prints World.handlers (rule.run engine.registry context) pauses lines outcome)
    (id : Uuid) (index : Nat) :
    Prints State.lines (engine.countedRule id index rule context) pauses lines
      (.script ⟨id, index, outcome⟩) :=
  (prints_interpret h).andThen <|
    .silent (fun _ => rfl) fun t => .silent (lines_countScript id t.now.1) fun _ => .done _

/-- There is no pause once the rule has run, not even if its task crashes. -/
theorem naps_superviseRule (engine : Engine (List ι)) (id : Uuid) (index : Nat) (rule : Rule)
    (context : Context) :
    (engine.superviseRule id index rule context).naps = (engine.interpret rule context).naps := by
  rw [superviseRule_eq]
  refine naps_bind fun outcome => ?_
  have hreplace : (engine.replaceRule id index Counter.overflow).naps = 0 := by
    rw [replaceRule_eq]
    simp [naps, apply_ite naps]
  simp [naps, apply_ite naps, hreplace]

theorem naps_le_of_recites (h : engine.Recites context account rule) (id : Uuid) (index : Nat) :
    (engine.superviseRule id index rule context).naps ≤ rule.actions.length := by
  obtain ⟨outcome, pauses, lines, hprints, hpauses, -⟩ := h
  rw [naps_superviseRule]
  exact (prints_interpret hprints).naps_le.trans (Nat.cast_le.mpr hpauses)

theorem prints_runRules {rules : List Rule}
    (h : ∀ rule ∈ rules, engine.Recites context account rule) (id : Uuid) (index : Nat) :
    ∃ pauses runs log, Prints State.lines (engine.runRules id context index rules) pauses
      (log.map Prod.snd) runs ∧ InTurn account id index rules runs log := by
  induction rules generalizing index with
  | nil => exact ⟨[], [], [], .done _, .through index⟩
  | cons rule rest ih =>
    obtain ⟨outcome, first, lines, hprints, -, haccount⟩ := h rule List.mem_cons_self
    obtain ⟨later, runs, log, hrest, hturn⟩ :=
      ih (fun other hother => h other (List.mem_cons_of_mem _ hother)) (index + 1)
    rw [runRules]
    by_cases hf : outcome.succeeded
    · refine ⟨first ++ later, _, _, ?_, .succeeded haccount hf hturn⟩
      rw [List.map_append, map_snd_signed]
      refine (prints_interpret hprints).bind ?_
      rw [if_pos hf]
      exact hrest.andThen (.done _)
    · -- no rule runs after one that failed
      refine ⟨first, _, _, ?_, .failed haccount hf⟩
      rw [map_snd_signed]
      refine (prints_interpret hprints).andThen ?_
      rw [if_neg hf]
      exact .done _

/-- Rules of a script side by side on a timeline, with fuel for as many pauses as they have actions
and with room for their runs. -/
theorem accounts_playOut {numbered : List (Rule × Nat)}
    (h : ∀ entry ∈ numbered, engine.Recites context account entry.1)
    (hn : (numbered.map Prod.snd).Nodup) {fuel : Nat}
    (hfuel : (numbered.map fun entry => entry.1.actions.length).sum ≤ fuel) (script : Script)
    {s : State (List ι)}
    (hroom : Room (numbered.map fun entry => .rule script entry.2 entry.1) s) :
    let played := Timeline.playOut fuel s <| numbered.map fun entry =>
      (Task.rule script entry.2 entry.1).run engine context
    ∃ runs log, (played.1.endings 0).mapM Ended.outcome = .ok (runs.map Result.script) ∧
      played.2.lines = s.lines ++ log.map Prod.snd ∧
      (runs.map ScriptRun.ruleIndex).Perm (numbered.map Prod.snd) ∧
      Accounts account numbered runs log := by
  intro played
  let task (entry : Rule × Nat) : Task := .rule script entry.2 entry.1
  have hnaps : ((numbered.map fun entry => (task entry).run engine context).map naps).sum ≤
      fuel := by
    refine le_trans ?_ (Nat.cast_le.mpr hfuel)
    rw [List.map_map, Nat.cast_list_sum, List.map_map]
    exact List.sum_le_sum fun entry hentry =>
      naps_le_of_recites (h entry hentry) script.id entry.2
  obtain ⟨w, hw, hover, -, hstate, houtcomes⟩ :=
    Timeline.exists_playOut_of_naps (fun s s' => s' = s) s hnaps
  -- what a rule prints and comes to does not depend on the turns that are taken
  choose! outcome pauses lines hprints _ haccount using h
  let run (entry : Rule × Nat) : ScriptRun := ⟨script.id, entry.2, outcome entry⟩
  let voice (entry : Rule × Nat) : Voice ι Result := ⟨entry.2, lines entry, .script (run entry)⟩
  -- with room for their counts the tasks end as if they did not look for it
  have hplain : Reaches (fun s s' => s' = s)
      (start 0 s ((numbered.map task).map (Task.plain engine context))) w := by
    refine Reaches.of_room (by rwa [List.map_map]) ?_ (Task.mirrors engine context) hroom hover
    rintro s _ rfl subject
    exact Nat.le_refl _
  have hvoices : List.Forall₂
      (fun voice p => ∃ pauses, Prints State.lines p pauses voice.lines voice.result)
      (numbered.map voice) ((numbered.map task).map (Task.plain engine context)) := by
    rw [List.map_map, List.forall₂_map_left_iff, List.forall₂_map_right_iff, List.forall₂_same]
    exact fun entry hentry => ⟨_, prints_countedRule (hprints entry hentry) script.id entry.2⟩
  have hnumbers : ((numbered.map voice).map Voice.number).Nodup := by
    rw [List.map_map]
    exact hn
  obtain ⟨log, hlog, howned, hlines, hall⟩ :=
    exists_log hvoices hnumbers (fun _ _ he => congrArg State.lines he) hplain hover
  have hoks : w.outcomes = (numbered.map run).map fun run => .ok (.script run) := by
    rw [hall, List.map_map, List.map_map]
    rfl
  obtain ⟨runs, hruns, hresults⟩ := exists_of_perm_map (hoks ▸ houtcomes)
  refine ⟨runs, log, mapM_eq_ok hresults, hstate ▸ hlog,
    accounts_of_perm hn hruns (fun entry hentry => ?_) fun line hline => ?_⟩
  · rw [hlines _ (List.mem_map_of_mem hentry)]
    exact haccount entry hentry
  · obtain ⟨_, hvoice, he⟩ := howned line hline
    obtain ⟨entry, hentry, rfl⟩ := List.mem_map.mp hvoice
    exact he ▸ List.mem_map_of_mem hentry

end Runs
end Automation.Engine
