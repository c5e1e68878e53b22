import Automation.Http.Interface
import Automation.Proofs.Routine.Turns
import Automation.Proofs.Table

/-!
# Patches of a script side by side

A patch gives a script its name in one commit and turns it on or off in another, so that someone
else can come in between. Two patches at the same time come to what they come to one after the
other exactly if neither of them leaves anything between the two changes of the other that it would
not leave before or after both.
-/
namespace Automation.Http

open Relation Weave
open Engine (State Operation scriptFormat)

variable {η : Type} {p q patch : ScriptPatch} {id : Uuid} {script last : Script}
  {answers : List Script}

namespace ScriptPatch

def named (name : String) (script : Script) : Script := { script with name }

def switched (enabled : Bool) (script : Script) : Script := { script with enabled }

/-- The script with what the patch gives it. -/
def applied (patch : ScriptPatch) (script : Script) : Script :=
  switched (patch.enabled.getD script.enabled) (named (patch.name.getD script.name) script)

/-- Nothing is given. -/
def IsEmpty (patch : ScriptPatch) : Prop := patch.name = none ∧ patch.enabled = none

/-- A script and the answers after two patches, of which either may have been the first. -/
inductive Serial (p q : ScriptPatch) (script : Script) : Script → List Script → Prop where
  | first : Serial p q script (q.applied (p.applied script))
      [p.applied script, q.applied (p.applied script)]
  | second : Serial p q script (p.applied (q.applied script))
      [p.applied (q.applied script), q.applied script]

/-- A patch of both name and state does not mind another one in between. If the other gives a name
it must be the same one. If it does not, either the script must have had the name before, or it
must be on or off after the other patch already as it will be. -/
def Withstands (patch other : ScriptPatch) (script : Script) : Prop :=
  ∀ name enabled, patch = ⟨some name, some enabled⟩ →
    match other.name with
    | some another => another = name
    | none => script.name = name ∨ other.enabled.getD script.enabled = enabled

/-- What a patch does to the script, one after the other. One that gives nothing looks at it. -/
def changes : ScriptPatch → List (Script → Script)
  | ⟨some name, some enabled⟩ => [named name, switched enabled]
  | patch => [patch.applied]

theorem changes_both (name : String) (enabled : Bool) :
    changes ⟨some name, some enabled⟩ = [named name, switched enabled] := rfl

/-- A patch is made at once, or it gives both name and state. -/
theorem changes_cases (patch : ScriptPatch) :
    (patch.changes = [patch.applied] ∧ (patch.name = none ∨ patch.enabled = none)) ∨
      ∃ name enabled, patch = ⟨some name, some enabled⟩ := by
  obtain ⟨name, enabled⟩ := patch
  cases name with
  | none => exact Or.inl ⟨rfl, Or.inl rfl⟩
  | some name =>
    cases enabled with
    | none => exact Or.inl ⟨rfl, Or.inr rfl⟩
    | some enabled => exact Or.inr ⟨name, enabled, rfl⟩

section Serial

variable {first second : Script}

theorem serial_pair_iff :
    Serial p q script last [first, second] ↔
      (last = q.applied (p.applied script) ∧ first = p.applied script ∧
        second = q.applied (p.applied script)) ∨
      (last = p.applied (q.applied script) ∧ first = p.applied (q.applied script) ∧
        second = q.applied script) := by
  constructor
  · intro h
    cases h with
    | first => exact Or.inl ⟨rfl, rfl, rfl⟩
    | second => exact Or.inr ⟨rfl, rfl, rfl⟩
  · rintro (⟨rfl, rfl, rfl⟩ | ⟨rfl, rfl, rfl⟩)
    · exact .first
    · exact .second

theorem serial_swap (h : Serial p q script last [first, second]) :
    Serial q p script last [second, first] := by
  cases h with
  | first => exact .second
  | second => exact .first

end Serial

theorem withstands_of_single (h : patch.name = none ∨ patch.enabled = none) (other : ScriptPatch)
    (script : Script) : patch.Withstands other script := by
  rintro name enabled rfl
  rcases h with h | h <;> cases h

/-- A patch that is made at once has come between the two changes of another. -/
theorem serial_between (name : String) (enabled : Bool) (script : Script)
    (h : q.name = none ∨ q.enabled = none) :
    Serial ⟨some name, some enabled⟩ q script (switched enabled (q.applied (named name script)))
        [switched enabled (q.applied (named name script)), q.applied (named name script)] ↔
      Withstands ⟨some name, some enabled⟩ q script := by
  obtain ⟨id, old, code, was, createdAt, lastRun, runCount, diagnostics⟩ := script
  obtain ⟨another, state⟩ := q
  rw [serial_pair_iff]
  cases another with
  | none =>
    cases state with
    | none =>
      simp [Withstands, applied, named, switched]
      grind
    | some state =>
      simp [Withstands, applied, named, switched]
      grind
  | some another =>
    obtain rfl : state = none := h.resolve_left nofun
    simp [Withstands, applied, named, switched]
    grind

/-- Two patches come to what they come to one after the other, in whatever order their changes are
made. -/
def Commute (p q : ScriptPatch) (script : Script) : Prop :=
  ∀ last answers, Mixed script [⟨p.changes, script⟩, ⟨q.changes, script⟩] last answers →
    Serial p q script last answers

theorem commute_of_singles (hp : p.changes = [p.applied]) (hq : q.changes = [q.applied])
    (script : Script) : Commute p q script := by
  intro last answers h
  rw [hp, hq] at h
  simp only [mixed_cons_cons, mixed_nil_cons, mixed_cons_nil, mixed_nil_nil] at h
  rcases h with ⟨rfl, rfl⟩ | ⟨rfl, rfl⟩
  · exact .first
  · exact .second

theorem commute_left_iff (name : String) (enabled : Bool) (script : Script)
    (hq : q.changes = [q.applied]) (h : q.name = none ∨ q.enabled = none) :
    Commute ⟨some name, some enabled⟩ q script ↔ Withstands ⟨some name, some enabled⟩ q script := by
  rw [← serial_between name enabled script h]
  simp only [Commute, hq, changes_both, mixed_two_one]
  constructor
  · exact fun h => h _ _ (Or.inr (Or.inl ⟨rfl, rfl⟩))
  · rintro hbetween last answers (⟨rfl, rfl⟩ | ⟨rfl, rfl⟩ | ⟨rfl, rfl⟩)
    · exact .first
    · exact hbetween
    · exact .second

theorem commute_right_iff (name : String) (enabled : Bool) (script : Script)
    (hp : p.changes = [p.applied]) (h : p.name = none ∨ p.enabled = none) :
    Commute p ⟨some name, some enabled⟩ script ↔ Withstands ⟨some name, some enabled⟩ p script := by
  rw [← serial_between name enabled script h]
  simp only [Commute, hp, changes_both, mixed_one_two]
  constructor
  · exact fun h => serial_swap (h _ _ (Or.inr (Or.inl ⟨rfl, rfl⟩)))
  · rintro hbetween last answers (⟨rfl, rfl⟩ | ⟨rfl, rfl⟩ | ⟨rfl, rfl⟩)
    · exact .first
    · exact serial_swap hbetween
    · exact .second

/-- If both patches give both, the names must be the same: otherwise the name may come from the one
and the state from the other. -/
theorem commute_both_iff (name another : String) (enabled state : Bool) (script : Script) :
    Commute ⟨some name, some enabled⟩ ⟨some another, some state⟩ script ↔ another = name := by
  simp only [Commute, changes_both, mixed_cons_cons, mixed_nil_cons, mixed_cons_nil, mixed_nil_nil]
  constructor
  · intro h
    -- both names are given before both states, each in another order
    have hcrossed := h _ _ (Or.inl (Or.inr (Or.inr ⟨rfl, rfl⟩)))
    simp [serial_pair_iff, applied, named, switched] at hcrossed
    grind
  · rintro rfl last answers
      ((⟨rfl, rfl⟩ | ⟨rfl, rfl⟩ | ⟨rfl, rfl⟩) | (⟨rfl, rfl⟩ | ⟨rfl, rfl⟩) | ⟨rfl, rfl⟩)
    · exact .first
    · exact .first
    · exact .second
    · exact .first
    · exact .second
    · exact .second

theorem commute_iff (p q : ScriptPatch) (script : Script) :
    Commute p q script ↔ p.Withstands q script ∧ q.Withstands p script := by
  rcases changes_cases p with ⟨hp, hpsingle⟩ | ⟨name, enabled, rfl⟩ <;>
    rcases changes_cases q with ⟨hq, hqsingle⟩ | ⟨another, state, rfl⟩
  · exact iff_of_true (commute_of_singles hp hq script)
      ⟨withstands_of_single hpsingle q script, withstands_of_single hqsingle p script⟩
  · rw [commute_right_iff another state script hp hpsingle]
    exact (and_iff_right (withstands_of_single hpsingle _ script)).symm
  · rw [commute_left_iff name enabled script hq hqsingle]
    exact (and_iff_left (withstands_of_single hqsingle _ script)).symm
  · rw [commute_both_iff]
    simp [Withstands]
    grind

end ScriptPatch

section Engine

/-- The state holds the script, and can save it unless nothing needs to be saved. -/
structure Keeps (id : Uuid) (quiet : Prop) (s : State η) (script : Script) : Prop where
  row : s.scripts.rows.get? id = some script
  works : ¬ quiet → s.scripts.Works s.storage

variable {quiet : Prop} {s : State η} {f : Script → Script} {todo : List (Script → Script)}
  {seen : Script}

/-- A change of a script that is returned. -/
def rewrite (id : Uuid) (f : Script → Script) : Table.Change Script Script :=
  Table.update scriptFormat id fun script => (f script, f script)

theorem changeScripts_rewrite (h : Keeps id quiet s script) (hq : ¬ quiet) (f : Script → Script) :
    (s.changeScripts (rewrite id f)).1 = .ok (f script) ∧
      Keeps id quiet (s.changeScripts (rewrite id f)).2 (f script) := by
  let scripts := { s.scripts with rows := s.scripts.rows.insert id (f script) }
  have hworks : scripts.Works s.storage := h.works hq
  have hrow : scripts.rows.get? id = some (f script) :=
    (s.scripts.rows.get?_insert id id (f script)).trans (if_pos rfl)
  rw [State.changeScripts, rewrite, Table.update_of_some scriptFormat _ s.storage h.row,
    Table.save_eq_of_works scriptFormat (f script) hworks]
  exact ⟨rfl, hrow, fun _ => hworks.afterSave⟩

theorem changeScripts_rewrite_unsaved (hrow : s.scripts.rows.get? id = some script)
    (hworks : ¬ s.scripts.Works s.storage) (f : Script → Script) :
    ∃ cause, (s.changeScripts (rewrite id f)).1 = .error (.io cause) := by
  obtain ⟨cause, hsave⟩ := @Table.save_of_not_works _ _ scriptFormat (f script)
    { s.scripts with rows := s.scripts.rows.insert id (f script) } s.storage hworks
  refine ⟨cause, ?_⟩
  rw [State.changeScripts, rewrite, Table.update_of_some scriptFormat _ s.storage hrow, hsave]

theorem bindCont_get {k : Script → Operation η Script}
    (hrow : s.scripts.rows.get? id = some script) :
    ExceptT.bindCont k ((s.scripts.get id).mapError (.ofStorage (.scriptNotFound id))) =
      (k script).run := by
  have hget : s.scripts.get id = .ok script := by rw [Table.get, hrow]
  rw [hget]
  rfl

theorem makes_getScript {k : Script → Operation η Script}
    (hk : ∀ script, Makes (Keeps id quiet) Except.ok todo seen (k script).run) :
    Makes (Keeps id quiet) Except.ok todo seen (Engine.getScript id >>= k).run := by
  refine .look fun s script h => ?_
  have hlook := hk script
  rw [← bindCont_get h.row] at hlook
  exact hlook

theorem makes_updateScript_bind {k : Script → Operation η Script} (hq : ¬ quiet)
    (hk : ∀ script, Makes (Keeps id quiet) Except.ok todo script (k script).run) :
    Makes (Keeps id quiet) Except.ok (f :: todo) seen (Engine.updateScript id f >>= k).run := by
  refine .change (fun s script h => (changeScripts_rewrite h hq f).2) fun s script h => ?_
  show Makes _ _ todo (f script)
    (ExceptT.bindCont k ((s.changeScripts (rewrite id f)).1.mapError _))
  rw [(changeScripts_rewrite h hq f).1]
  exact hk (f script)

theorem makes_updateScript (hq : ¬ quiet) :
    Makes (Keeps id quiet) Except.ok [f] seen
      (Engine.updateScript id f : Operation η Script).run := by
  refine .change (fun s script h => (changeScripts_rewrite h hq f).2) fun s script h => ?_
  show Makes _ _ [] (f script) (.done ((s.changeScripts (rewrite id f)).1.mapError _))
  rw [(changeScripts_rewrite h hq f).1]
  exact .done (f script)

theorem makes_patchScript (hq : quiet → patch.IsEmpty) (seen : Script) :
    Makes (Keeps id quiet) Except.ok patch.changes seen
      (patchScript id patch : Operation η Script).run := by
  obtain ⟨name, enabled⟩ := patch
  cases name with
  | none =>
    cases enabled with
    | none =>
      refine .change (fun s script h => h) fun s script h => ?_
      have hdone : Makes (Keeps id quiet) Except.ok [] script
          (pure script : Operation η Script).run := .done script
      rw [← @bindCont_get _ _ _ s pure h.row] at hdone
      exact hdone
    | some enabled =>
      have hloud : ¬ quiet := fun hquiet => nomatch (hq hquiet).2
      exact makes_getScript fun script => makes_updateScript hloud
  | some name =>
    have hloud : ¬ quiet := fun hquiet => nomatch (hq hquiet).1
    cases enabled with
    | none =>
      exact makes_getScript fun _ => makes_updateScript_bind hloud fun script => .done script
    | some enabled =>
      exact makes_getScript fun _ => makes_updateScript_bind hloud fun _ => makes_updateScript hloud

/-- A sequence ends with the first error. -/
theorem advance_bindCont_error {routine : Routine (State η) (Except EngineError Script)}
    {k : Script → Operation η Script} {s' : State η} {e : EngineError}
    (h : routine.advance s = (.finished (.error e), s')) :
    (routine.bind (ExceptT.bindCont k)).advance s = (.finished (.error e), s') := by
  induction routine generalizing s with
  | done answer =>
    cases h
    rfl
  | crash message => cases h
  | commit update next ih => exact ih s h
  | pause length next ih =>
    rw [Routine.advance] at h
    split at h
    · next hzero => exact (if_pos hzero).trans (ih h)
    · cases h

/-- A patch that cannot be saved is answered with an error. -/
theorem advance_patchScript_unsaved (hrow : s.scripts.rows.get? id = some script)
    (hworks : ¬ s.scripts.Works s.storage) (hp : ¬ patch.IsEmpty) :
    ∃ e s', (patchScript id patch).run.advance s = (.finished (.error e), s') := by
  have hget : ∀ k : Script → Operation η Script,
      (Engine.getScript id >>= k).run.advance s = (k script).run.advance s := by
    intro k
    rw [← bindCont_get hrow]
    rfl
  have hupdate : ∀ f : Script → Script, ∃ e s',
      (Engine.updateScript id f : Operation η Script).run.advance s =
        (.finished (.error e), s') := by
    intro f
    obtain ⟨cause, hsave⟩ := changeScripts_rewrite_unsaved hrow hworks f
    refine ⟨.database (.io cause), (s.changeScripts (rewrite id f)).2, ?_⟩
    show (Routine.Standing.finished ((s.changeScripts (rewrite id f)).1.mapError _), _) = _
    rw [hsave]
    rfl
  obtain ⟨name, enabled⟩ := patch
  cases name with
  | some name =>
    obtain ⟨e, s', hrename⟩ := hupdate fun script => { script with name }
    exact ⟨e, s', (hget _).trans (advance_bindCont_error hrename)⟩
  | none =>
    cases enabled with
    | none => exact absurd ⟨rfl, rfl⟩ hp
    | some enabled =>
      obtain ⟨e, s', hswitch⟩ := hupdate fun script => { script with enabled }
      exact ⟨e, s', (hget _).trans hswitch⟩

/-- Others leave the script as it is, and they leave the storage working if it works. -/
def LeavesScript (id : Uuid) (s s' : State η) : Prop :=
  s'.scripts.rows.get? id = s.scripts.rows.get? id ∧
    (s.scripts.Works s.storage → s'.scripts.Works s'.storage)

/-- Two patches of a script have come to what they come to one after the other: the script that is
stored in the end, and the script that each has been answered with. -/
def InTurn (id : Uuid) (p q : ScriptPatch) (script : Script)
    (w : Weave (State η) (Except EngineError Script)) : Prop :=
  ∃ last answers, p.Serial q script last answers ∧ w.state.scripts.rows.get? id = some last ∧
    w.strands.map Strand.outcome? = answers.map fun answer => some (.ok (.ok answer))

/-- Two patches of a script on their way at the same time. -/
def patchesAt (now : Nat) (s : State η) (id : Uuid) (p q : ScriptPatch) :
    Weave (State η) (Except EngineError Script) :=
  start now s [(patchScript id p).run, (patchScript id q).run]

theorem pursuit_patchesAt {now : Nat} (h : Keeps id (p.IsEmpty ∧ q.IsEmpty) s script) :
    Pursuit (Keeps id (p.IsEmpty ∧ q.IsEmpty)) Except.ok now script
      [⟨p.changes, script⟩, ⟨q.changes, script⟩] (patchesAt now s id p q) := by
  refine Pursuit.of_start h rfl fun i agenda routine ha hroutine => ?_
  rcases i with _ | _ | i
  · cases ha
    cases hroutine
    exact makes_patchScript And.left script
  · cases ha
    cases hroutine
    exact makes_patchScript And.right script
  · cases ha

/-- A patch that cannot be saved is answered with an error whoever comes first. -/
theorem exists_not_inTurn {now i : Nat} (hrow : s.scripts.rows.get? id = some script)
    (hworks : ¬ s.scripts.Works s.storage) (hi : [p, q][i]? = some patch) (hp : ¬ patch.IsEmpty) :
    ∃ w, Reaches (LeavesScript id) (patchesAt now s id p q) w ∧ w.Over ∧
      ¬ InTurn id p q script w := by
  obtain ⟨e, s', hadvance⟩ := advance_patchScript_unsaved hrow hworks hp
  have hstrand : (patchesAt now s id p q).strands[i]? =
      some (.underway now (patchScript id patch).run) := by
    have hmap : (patchesAt now s id p q).strands =
        [p, q].map fun patch => .underway now (patchScript id patch).run := rfl
    rw [hmap, List.getElem?_map, hi]
    rfl
  have hwaits : (patchesAt now s id p q).Waits now := by
    intro due rest hmem
    obtain ⟨_, -, he⟩ := List.mem_map.mp hmem
    cases he
    exact Nat.le_refl now
  have hfirst := steps_finished hstrand hwaits hadvance
  obtain ⟨w, hrest, hover⟩ := exists_over
    ⟨now, s', (patchesAt now s id p q).strands.set i (.ended now (.ok (.error e)))⟩
  refine ⟨w, Reaches.refl.steps (hfirst.to_reflTransGen.trans hrest), hover, ?_⟩
  have hended := getElem?_of_steps hrest
    (List.getElem?_set_self (List.getElem?_eq_some_iff.mp hstrand).1)
  rintro ⟨last, answers, -, -, hanswers⟩
  have hsame := congrArg (fun outcomes => outcomes[i]?) hanswers
  simp only [List.getElem?_map, hended, Option.map_some] at hsame
  obtain ⟨answer, -, he⟩ := Option.map_eq_some_iff.mp hsame.symm
  cases he

/-- Two patches always come to what they come to one after the other if and only if both can be
saved and neither minds the other in between. What others do meanwhile leaves the script alone. -/
theorem patches_in_turn_iff (now : Nat) (p q : ScriptPatch)
    (h : s.scripts.rows.get? id = some script) :
    (∀ w, Reaches (LeavesScript id) (patchesAt now s id p q) w → w.Over → InTurn id p q script w) ↔
      (s.scripts.Works s.storage ∨ p.IsEmpty ∧ q.IsEmpty) ∧
        p.Withstands q script ∧ q.Withstands p script := by
  constructor
  · intro hall
    have hworks : s.scripts.Works s.storage ∨ p.IsEmpty ∧ q.IsEmpty := by
      -- otherwise one of the two has something to save, and goes first
      by_contra hneither
      obtain ⟨hworks, hloud⟩ := not_or.mp hneither
      have hfails : ∀ (i : Nat) patch, [p, q][i]? = some patch → patch.IsEmpty := by
        intro i patch hi
        by_contra hp
        obtain ⟨w, hw, hover, hnot⟩ := @exists_not_inTurn _ _ _ _ _ _ _ now _ h hworks hi hp
        exact hnot (hall w hw hover)
      exact hloud ⟨hfails 0 p rfl, hfails 1 q rfl⟩
    -- each order of the changes is that of a run, whose end is one of the two serial ones
    refine ⟨hworks, (ScriptPatch.commute_iff p q script).mp fun last answers hmixed => ?_⟩
    obtain ⟨w, hsteps, hover, hkeeps, hanswers⟩ :=
      (@pursuit_patchesAt _ _ _ _ _ _ now ⟨h, hworks.resolve_right⟩).exists_of_mixed hmixed
    obtain ⟨last', answers', hserial, hrow, hanswers'⟩ := hall w (Reaches.refl.steps hsteps) hover
    obtain rfl : last = last' := Option.some.inj (hkeeps.row.symm.trans hrow)
    obtain rfl : answers = answers' :=
      List.map_injective_iff.mpr (fun a b he => by simpa using he) (hanswers.symm.trans hanswers')
    exact hserial
  · rintro ⟨hworks, hwithstand⟩ w hw hover
    obtain ⟨last, answers, hmixed, hkeeps, hanswers⟩ := hw.mixed
      (fun s s' script hothers hkeeps => ⟨hothers.1.trans hkeeps.row, fun hquiet =>
        hothers.2 (hkeeps.works hquiet)⟩)
      (pursuit_patchesAt ⟨h, hworks.resolve_right⟩) hover
    exact ⟨last, answers, (ScriptPatch.commute_iff p q script).mpr hwithstand last answers hmixed,
      hkeeps.row, hanswers⟩

end Engine

namespace Sign

def sign : Script := Script.create ⟨7⟩ ⟨0, 0⟩ "open" ""

/-- An engine that keeps one script in memory. -/
def shop : State Unit :=
  { State.start
      ⟨(), 0, ⟨fun n => ⟨BitVec.ofNat 128 n⟩, 0⟩, ⟨fun n => ⟨n, 0⟩, 0⟩, ⟨fun n => n, 0⟩,
        ⟨fun n => n, 0⟩⟩ with
    scripts := ⟨"scripts", false, Dict.empty.insert ⟨7⟩ sign⟩ }

/-- The sign may end with the name of the one patch and the state of the other, but a name and a
state that are given by themselves do not get into each other's way. -/
theorem patches_in_turn_shop :
    shop.scripts.rows.get? ⟨7⟩ = some sign ∧
    (∃ w, Reaches (LeavesScript ⟨7⟩)
        (patchesAt 0 shop ⟨7⟩ ⟨some "closed", some false⟩ ⟨some "busy", some true⟩) w ∧
      w.Over ∧ ¬ InTurn ⟨7⟩ ⟨some "closed", some false⟩ ⟨some "busy", some true⟩ sign w) ∧
    ∀ w, Reaches (LeavesScript ⟨7⟩)
        (patchesAt 0 shop ⟨7⟩ ⟨some "closed", none⟩ ⟨none, some false⟩) w →
      w.Over → InTurn ⟨7⟩ ⟨some "closed", none⟩ ⟨none, some false⟩ sign w := by
  have hrow : shop.scripts.rows.get? ⟨7⟩ = some sign := rfl
  have hworks : shop.scripts.Works shop.storage := nofun
  refine ⟨hrow, ?_, ?_⟩
  · by_contra hnone
    have hall := (patches_in_turn_iff 0 ⟨some "closed", some false⟩ ⟨some "busy", some true⟩
      hrow).mp fun w hw hover => by_contra fun hnot => hnone ⟨w, hw, hover, hnot⟩
    have hname : "busy" = "closed" := hall.2.1 "closed" false rfl
    exact absurd hname (by decide)
  · exact (patches_in_turn_iff 0 ⟨some "closed", none⟩ ⟨none, some false⟩ hrow).mpr
      ⟨Or.inl hworks, ScriptPatch.withstands_of_single (Or.inr rfl) _ sign,
        ScriptPatch.withstands_of_single (Or.inl rfl) _ sign⟩

end Sign
end Automation.Http
