import Automation.Proofs.Engine.Request
import Automation.Proofs.Engine.ScriptRun
import Automation.Proofs.Engine.Task
import Automation.Proofs.Workflow.Writes

/-!
# What requests enter in the books

The count of runs of a script or workflow, and the variables of a workflow, as what is entered about
them: variables that are set, or replaced as a whole, and runs that are counted. Whatever a request
does to a count or to variables, in any of its steps, is what it enters in that step. A run for
which the counter has no room is not entered, so every entry of a run makes the count one larger.
-/
namespace Automation.Engine

open Routine

variable {η α β : Type}

/-- How often something has run, and its variables; scripts have none. -/
structure Tally where
  runs : UInt64
  vars : Variables

def State.tally? (s : State η) : Subject → Option Tally
  | .script id => (s.scripts.rows.get? id).map fun script => ⟨script.runCount, Dict.empty⟩
  | .workflow id => (s.workflows.rows.get? id).map fun w => ⟨w.runCount, w.vars⟩

theorem State.runs?_eq (s : State η) (subject : Subject) :
    s.runs? subject = (s.tally? subject).map Tally.runs := by
  cases subject with
  | script id => rw [runs?, tally?, Option.map_map]; rfl
  | workflow id => rw [runs?, tally?, Option.map_map]; rfl

theorem State.runs_of_tally {s : State η} {subject : Subject} {tally : Tally}
    (h : s.tally? subject = some tally) : s.runs subject = tally.runs.toNat := by
  rw [runs, runs?_eq, h]
  rfl

/-- A counter that is not full has room for one more. -/
theorem State.room_of_not_full {s : State η} {subject : Subject} {tally : Tally}
    (h : s.tally? subject = some tally) (hfull : ¬ s.Full subject) :
    tally.runs.toNat + 1 < 2 ^ 64 := by
  have hlt := s.runs_lt subject
  rw [full_iff] at hfull
  rw [runs_of_tally h] at hfull hlt
  omega

/-- What is entered in the books. -/
inductive Entry where
  /-- A variable of a workflow was set from outside. -/
  | set (id : Uuid) (name : String) (value : Json)
  /-- The variables of a workflow were replaced from outside. -/
  | replaced (id : Uuid) (vars : Variables)
  /-- A run of a workflow was counted, and left these variables. -/
  | completed (id : Uuid) (vars : Variables)
  /-- A run of a script was counted. -/
  | ran (scriptId : Uuid)

/-- What an entry makes of a tally. -/
def Tally.after (subject : Subject) (tally : Tally) : Entry → Tally
  | .set id name value =>
    if subject = .workflow id then { tally with vars := tally.vars.insert name value } else tally
  | .replaced id vars => if subject = .workflow id then { tally with vars } else tally
  | .completed id vars => if subject = .workflow id then ⟨tally.runs + 1, vars⟩ else tally
  | .ran id => if subject = .script id then { tally with runs := tally.runs + 1 } else tally

/-- Whether an entry counts a run. -/
def Entry.counts (subject : Subject) : Entry → Bool
  | .set _ _ _ | .replaced _ _ => false
  | .completed id _ => subject = .workflow id
  | .ran id => subject = .script id

/-- The tally after all entries, in their order. -/
def Tally.replay (subject : Subject) (tally : Tally) (entries : List Entry) : Tally :=
  entries.foldl (Tally.after subject) tally

theorem Tally.runs_after (subject : Subject) (tally : Tally) (entry : Entry) :
    (tally.after subject entry).runs =
      tally.runs + if entry.counts subject then 1 else 0 := by
  cases entry with
  | set id name value => by_cases h : subject = .workflow id <;> simp [after, Entry.counts, h]
  | replaced id vars => by_cases h : subject = .workflow id <;> simp [after, Entry.counts, h]
  | completed id vars => by_cases h : subject = .workflow id <;> simp [after, Entry.counts, h]
  | ran id => by_cases h : subject = .script id <;> simp [after, Entry.counts, h]

/-- Every entry that counts adds one, as long as there is room for it. -/
theorem Tally.toNat_replay {subject : Subject} {tally : Tally} {entries : List Entry}
    (h : tally.runs.toNat + entries.countP (Entry.counts subject) < 2 ^ 64) :
    (tally.replay subject entries).runs.toNat =
      tally.runs.toNat + entries.countP (Entry.counts subject) := by
  induction entries generalizing tally with
  | nil => rfl
  | cons entry entries ih =>
    have hfirst : (tally.after subject entry).runs.toNat =
        tally.runs.toNat + if entry.counts subject then 1 else 0 := by
      rw [runs_after]
      split
      · next hcounts =>
        rw [List.countP_cons_of_pos hcounts] at h
        rw [UInt64.toNat_add, show (1 : UInt64).toNat = 1 from rfl]
        omega
      · rw [UInt64.add_zero, Nat.add_zero]
    rw [List.countP_cons] at h ⊢
    rw [replay, List.foldl_cons, ← replay, ih (by omega)]
    omega

/-- What happened between two states is told by some entries, and there was room for all that they
count. -/
def Told (subject : Subject) (entries : List Entry) (s s' : State η) : Prop :=
  ∀ tally, s.tally? subject = some tally →
    s'.tally? subject = some (tally.replay subject entries) ∧
      (tally.replay subject entries).runs.toNat =
        tally.runs.toNat + entries.countP (Entry.counts subject)

theorem told_nil {subject : Subject} {s s' : State η} (h : s'.tally? subject = s.tally? subject) :
    Told subject [] s s' :=
  fun _ hs => ⟨h.trans hs, rfl⟩

theorem Told.append {subject : Subject} {entries more : List Entry} {s s' s'' : State η}
    (h : Told subject entries s s') (h' : Told subject more s' s'') :
    Told subject (entries ++ more) s s'' := by
  intro tally hs
  obtain ⟨hfirst, hcount⟩ := h tally hs
  obtain ⟨hlast, hmore⟩ := h' _ hfirst
  rw [Tally.replay, List.foldl_append, List.countP_append, ← Nat.add_assoc, ← hcount]
  exact ⟨hlast, hmore⟩

/-- Nothing takes a count back. -/
theorem Told.runs_le {subject : Subject} {entries : List Entry} {s s' : State η}
    (h : Told subject entries s s') (hsome : (s.tally? subject).isSome) :
    s.runs subject ≤ s'.runs subject := by
  obtain ⟨tally, htally⟩ := Option.isSome_iff_exists.mp hsome
  obtain ⟨hafter, hcount⟩ := h tally htally
  rw [State.runs_of_tally htally, State.runs_of_tally hafter, hcount]
  exact Nat.le_add_right _ _

section Changes

variable (s : State η) (subject : Subject)

theorem tally_changeScripts (id : Uuid) (change : Script → β × Script) :
    (s.changeScripts (Table.update scriptFormat id change)).2.tally? subject =
      if subject = .script id then
        (s.scripts.rows.get? id).map fun script => ⟨(change script).2.runCount, Dict.empty⟩
      else s.tally? subject := by
  cases subject with
  | workflow key => rfl
  | script key =>
    have hrow := Table.get?_rows_update scriptFormat id key change s.scripts s.storage
    show Option.map _ ((Table.update scriptFormat id change (s.scripts, s.storage)).2.1.rows.get?
      key) = _
    rw [hrow]
    by_cases hkey : id = key
    · subst hkey
      rw [if_pos rfl, if_pos rfl, Option.map_map]
      rfl
    · have hsubject : Subject.script key ≠ .script id := fun h => hkey (Subject.script.inj h).symm
      rw [if_neg hkey, if_neg hsubject]
      rfl

theorem tally_changeWorkflows (id : Uuid) (change : Workflow → β × Workflow) :
    (s.changeWorkflows (Table.update workflowFormat id change)).2.tally? subject =
      if subject = .workflow id then
        (s.workflows.rows.get? id).map fun w => ⟨(change w).2.runCount, (change w).2.vars⟩
      else s.tally? subject := by
  cases subject with
  | script key => rfl
  | workflow key =>
    have hrow := Table.get?_rows_update workflowFormat id key change s.workflows s.storage
    show Option.map _ ((Table.update workflowFormat id change (s.workflows,
      s.storage)).2.1.rows.get? key) = _
    rw [hrow]
    by_cases hkey : id = key
    · subst hkey
      rw [if_pos rfl, if_pos rfl, Option.map_map]
      rfl
    · have hsubject : Subject.workflow key ≠ .workflow id :=
        fun h => hkey (Subject.workflow.inj h).symm
      rw [if_neg hkey, if_neg hsubject]
      rfl

end Changes

/-- The entry for a run that was counted between two states, if one was. -/
def State.counted (s s' : State η) (subject : Subject) (entry : Tally → Entry) : List Entry :=
  match s.tally? subject, s'.tally? subject with
  | some before, some after => if before.runs = after.runs then [] else [entry after]
  | _, _ => []

theorem mem_counted {s s' : State η} {subject : Subject} {entry : Tally → Entry} {e : Entry}
    (h : e ∈ s.counted s' subject entry) : ∃ after, e = entry after := by
  unfold State.counted at h
  split at h
  · next before after _ _ =>
    split at h
    · cases h
    · exact ⟨after, List.mem_singleton.mp h⟩
  · cases h

theorem counted_of_eq {s s' : State η} {subject : Subject} (entry : Tally → Entry)
    (h : s'.tally? subject = s.tally? subject) : s.counted s' subject entry = [] := by
  rw [State.counted, h]
  cases s.tally? subject with
  | none => rfl
  | some tally => exact if_pos rfl

theorem counted_of_none {s s' : State η} {subject : Subject} (entry : Tally → Entry)
    (h : s.tally? subject = none) : s.counted s' subject entry = [] := by
  rw [State.counted, h]

theorem counted_of_succ {s s' : State η} {subject : Subject} (entry : Tally → Entry)
    {before after : Tally} (h : s.tally? subject = some before)
    (h' : s'.tally? subject = some after) (hruns : after.runs = before.runs + 1) :
    s.counted s' subject entry = [entry after] := by
  have hne : before.runs ≠ after.runs := by
    intro he
    have hone : (1 : UInt64) = 0 := by
      rw [← UInt64.add_right_inj before.runs, ← hruns, ← he, UInt64.add_zero]
    exact absurd hone (by decide)
  rw [State.counted, h, h']
  exact if_neg hne

/-- A step that counts a run of something and does nothing to others is told by what it counts. -/
theorem told_counted {s s' : State η} {subject owner : Subject} {entry : Tally → Entry}
    (hothers : ∀ other, other ≠ owner → s'.tally? other = s.tally? other ∧
      ∀ (tally after : Tally), tally.after other (entry after) = tally ∧
        (entry after).counts other = false)
    (hown : ∀ before, s.tally? owner = some before → ∃ after, s'.tally? owner = some after ∧
      s.counted s' owner entry = [entry after] ∧ before.after owner (entry after) = after ∧
        before.runs.toNat + 1 < 2 ^ 64) :
    Told subject (s.counted s' owner entry) s s' := by
  intro tally hs
  by_cases hsubject : subject = owner
  · subst hsubject
    obtain ⟨after, hafter, hcounted, happly, hroom⟩ := hown tally hs
    have hone := @List.countP_le_length _ (Entry.counts subject) [entry after]
    rw [hcounted, hafter]
    refine ⟨congrArg some happly.symm, Tally.toNat_replay (Nat.lt_of_le_of_lt ?_ hroom)⟩
    exact Nat.add_le_add_left hone _
  · obtain ⟨hsame, hneutral⟩ := hothers subject hsubject
    rw [hsame, hs]
    cases howner : s.tally? owner with
    | none => rw [counted_of_none _ howner]; exact ⟨rfl, rfl⟩
    | some before =>
      obtain ⟨after, -, hcounted, -⟩ := hown before howner
      obtain ⟨hkeep, hnone⟩ := hneutral tally after
      have hreplay : tally.replay subject [entry after] = tally := hkeep
      rw [hcounted, hreplay, List.countP_singleton, hnone]
      exact ⟨rfl, rfl⟩

/-- Where nothing changes nothing is counted. -/
theorem told_same {s s' : State η} {owner subject : Subject} (entry : Tally → Entry)
    (h : ∀ subject, s'.tally? subject = s.tally? subject) :
    Told subject (s.counted s' owner entry) s s' := by
  rw [counted_of_eq entry (h owner)]
  exact told_nil (h subject)

namespace Request

/-- Whether a request makes a new script or workflow. -/
def makesRow : Request → Bool
  | createScript _ _ | convertScript _ | createWorkflow _ _ _ | importWorkflow _
  | duplicateWorkflow _ => true
  | _ => false

/-- What a request deletes. -/
def deletes : Request → Option Subject
  | deleteScript id => some (.script id)
  | deleteWorkflow id => some (.workflow id)
  | _ => none

/-- What a request enters in the books with one of its steps: what it sets, and what a run counts
then. -/
def enters (s s' : State η) : Request → List Entry
  | setVariable id name value => [.set id name value]
  | updateWorkflow id patch => (patch.vars.map (.replaced id)).toList
  | executeWorkflow id _ | runWorkflow id _ =>
    s.counted s' (.workflow id) fun after => .completed id after.vars
  | runScript id _ | runRule id _ _ _ => s.counted s' (.script id) fun _ => .ran id
  | _ => []

end Request

section Records

variable {s : State η} {id : Uuid} (subject : Subject) (now : Instant)

theorem tally_countScript (hfull : ¬ s.Full (.script id)) :
    (countScript id now s).tally? subject =
      if subject = .script id then
        (s.tally? (.script id)).map fun tally => { tally with runs := tally.runs + 1 }
      else s.tally? subject := by
  rw [countScript, if_neg hfull, addScriptRun, tally_changeScripts, State.tally?, Option.map_map]
  rfl

theorem tally_countWorkflow (hfull : ¬ s.Full (.workflow id)) (vars : Variables) :
    (countWorkflow id now vars s).tally? subject =
      if subject = .workflow id then
        (s.tally? (.workflow id)).map fun tally => ⟨tally.runs + 1, vars⟩
      else s.tally? subject := by
  rw [countWorkflow, if_neg hfull, addWorkflowRun, tally_changeWorkflows, State.tally?,
    Option.map_map]
  rfl

theorem counted_countScript (hfull : ¬ s.Full (.script id)) {tally : Tally}
    (h : s.tally? (.script id) = some tally) :
    s.counted (countScript id now s) (.script id) (fun _ => .ran id) = [.ran id] := by
  have hafter : (countScript id now s).tally? (.script id) =
      some { tally with runs := tally.runs + 1 } := by
    rw [tally_countScript _ now hfull, if_pos rfl, h]
    rfl
  exact counted_of_succ _ h hafter rfl

theorem counted_countWorkflow (hfull : ¬ s.Full (.workflow id)) (vars : Variables) {tally : Tally}
    (h : s.tally? (.workflow id) = some tally) :
    s.counted (countWorkflow id now vars s) (.workflow id) (fun after => .completed id after.vars) =
      [.completed id vars] := by
  have hafter : (countWorkflow id now vars s).tally? (.workflow id) =
      some ⟨tally.runs + 1, vars⟩ := by
    rw [tally_countWorkflow _ now hfull, if_pos rfl, h]
    rfl
  exact counted_of_succ _ h hafter rfl

variable (s) (id)

theorem told_countScript :
    Told subject (s.counted (countScript id now s) (.script id) fun _ => .ran id) s
      (countScript id now s) := by
  by_cases hfull : s.Full (.script id)
  · rw [countScript, if_pos hfull]
    exact told_same _ fun _ => rfl
  refine told_counted (fun other hne => ⟨?_, fun _ _ => ⟨if_neg hne, decide_eq_false hne⟩⟩)
    fun before hbefore => ?_
  · rw [tally_countScript _ now hfull, if_neg hne]
  · refine ⟨_, ?_, counted_countScript now hfull hbefore, if_pos rfl,
      State.room_of_not_full hbefore hfull⟩
    rw [tally_countScript _ now hfull, if_pos rfl, hbefore]
    rfl

theorem told_countWorkflow (vars : Variables) :
    Told subject (s.counted (countWorkflow id now vars s) (.workflow id) fun after =>
      .completed id after.vars) s (countWorkflow id now vars s) := by
  by_cases hfull : s.Full (.workflow id)
  · rw [countWorkflow, if_pos hfull]
    exact told_same _ fun _ => rfl
  refine told_counted (fun other hne => ⟨?_, fun _ _ => ⟨if_neg hne, decide_eq_false hne⟩⟩)
    fun before hbefore => ?_
  · rw [tally_countWorkflow _ now hfull, if_neg hne]
  · refine ⟨⟨before.runs + 1, vars⟩, ?_, counted_countWorkflow now hfull vars hbefore, if_pos rfl,
      State.room_of_not_full hbefore hfull⟩
    rw [tally_countWorkflow _ now hfull, if_pos rfl, hbefore]
    rfl

end Records

section Requests

/-- A commit that there is nothing to tell about. -/
def Silent (subject : Subject) (update : State η → State η) : Prop :=
  ∀ s, (update s).tally? subject = s.tally? subject

variable {subject : Subject}

theorem coversLog_silent : CoversLog (Silent subject : (State η → State η) → Prop) :=
  fun _ _ _ => rfl

theorem silent_fresh (make : Uuid → Instant → α) :
    Commits (Silent subject) (fresh make : Operation η α).run :=
  .commit (fun _ => rfl) fun _ => .done _

theorem silent_updateScript (id : Uuid) {change : Script → Script}
    (h : ∀ script, (change script).runCount = script.runCount) :
    Commits (Silent subject) (updateScript id change : Operation η Script).run := by
  refine .commit (fun s => ?_) fun _ => .done _
  refine (tally_changeScripts s subject id fun script => (change script, change script)).trans ?_
  split
  · next hsubject => simp only [hsubject, State.tally?, h]
  · rfl

theorem silent_changeWorkflow (id : Uuid) {change : Workflow → β × Workflow}
    (h : ∀ w, (change w).2.runCount = w.runCount ∧ (change w).2.vars = w.vars) :
    Commits (Silent subject) (changeWorkflow id change : Operation η β).run := by
  refine .commit (fun s => ?_) fun _ => .done _
  refine (tally_changeWorkflows s subject id change).trans ?_
  split
  · next hsubject => simp only [hsubject, State.tally?, h]
  · rfl

/-- A change of one node of a workflow. -/
theorem silent_changeNode (id : Uuid) (nodeId : String)
    {change : Workflow → Option (Node × Workflow)}
    (h : ∀ w pair, change w = some pair →
      pair.2.runCount = w.runCount ∧ pair.2.vars = w.vars) :
    Commits (Silent subject) (do
      let node ← changeWorkflow id fun w => onNode (change w) w
      orNodeNotFound id nodeId node : Operation η Node).run := by
  refine commits_bind (silent_changeWorkflow id fun w => ?_) fun node => ?_
  · cases hc : change w with
    | none => exact ⟨rfl, rfl⟩
    | some pair => exact h w pair hc
  · cases node with
    | none => exact .done _
    | some node => exact .done _

theorem silent_addNode (engine : Engine η) (id : Uuid) (templateId : String) (position : Point) :
    Commits (Silent subject) (engine.addNode id templateId position).run := by
  unfold addNode
  cases engine.catalog.get? templateId with
  | none =>
    refine commits_bind (.commit (fun _ => rfl) fun _ => .done _) fun _ => ?_
    exact commits_bind (commits_read coversLog_silent.world _) fun _ => .done _
  | some template =>
    exact commits_bind (silent_fresh _) fun node =>
      commits_bind (silent_changeWorkflow id fun _ => ⟨rfl, rfl⟩) fun _ => .done _

theorem silent_connect (id : Uuid) (source target : String)
    (sourceHandle targetHandle : Option String) :
    Commits (Silent subject)
      (connect id source target sourceHandle targetHandle : Operation η Connection).run := by
  refine commits_bind (silent_fresh _) fun connection => ?_
  refine commits_bind (silent_changeWorkflow id fun w => ?_) fun result => ?_
  · rw [Workflow.connect]
    cases w.missingEnd? connection.source connection.target with
    | some e => exact ⟨rfl, rfl⟩
    | none => exact ⟨rfl, rfl⟩
  · cases result with
    | ok connection => exact .done _
    | error e => exact .done _

/-- Something else is deleted. -/
theorem silent_deleteScript {id : Uuid} (h : subject ≠ .script id) :
    Commits (Silent subject) (deleteScript id : Operation η Unit).run := by
  refine .commit (fun s => ?_) fun _ => .done _
  cases subject with
  | workflow key => rfl
  | script key =>
    have hkey : id ≠ key := fun he => h (congrArg Subject.script he.symm)
    have hrow := Table.get?_rows_delete scriptFormat id key s.scripts s.storage
    rw [if_neg hkey] at hrow
    exact congrArg (Option.map fun script : Script => (⟨script.runCount, Dict.empty⟩ : Tally)) hrow

theorem silent_deleteWorkflow {id : Uuid} (h : subject ≠ .workflow id) :
    Commits (Silent subject) (deleteWorkflow id : Operation η Unit).run := by
  refine .commit (fun s => ?_) fun _ => .done _
  cases subject with
  | script key => rfl
  | workflow key =>
    have hkey : id ≠ key := fun he => h (congrArg Subject.workflow he.symm)
    have hrow := Table.get?_rows_delete workflowFormat id key s.workflows s.storage
    rw [if_neg hkey] at hrow
    exact congrArg (Option.map fun w : Workflow => (⟨w.runCount, w.vars⟩ : Tally)) hrow

/-- A change of a workflow is told by entries that come to the same for it, to nothing for others,
and count no runs. -/
theorem told_changeWorkflow {id : Uuid} {change : Workflow → β × Workflow} {entries : List Entry}
    (hown : ∀ w : Workflow, (⟨w.runCount, w.vars⟩ : Tally).replay (.workflow id) entries =
      ⟨(change w).2.runCount, (change w).2.vars⟩)
    (hothers : ∀ tally : Tally, subject ≠ .workflow id → tally.replay subject entries = tally)
    (hcounts : entries.countP (Entry.counts subject) = 0) :
    Moves (Told subject entries) (succeeds (changeWorkflow id change : Operation η β)) := by
  refine .commit (fun s tally hs => ⟨?_, ?_⟩) fun _ => .done _
  · refine (tally_changeWorkflows s subject id change).trans ?_
    by_cases hsubject : subject = .workflow id
    · subst hsubject
      obtain ⟨w, hw, rfl⟩ := Option.map_eq_some_iff.mp hs
      rw [if_pos rfl, hw, hown]
      rfl
    · rw [if_neg hsubject, hothers tally hsubject]
      exact hs
  · refine Tally.toNat_replay ?_
    rw [hcounts]
    exact tally.runs.toNat_lt

/-- Whatever a request does to a tally, in any of its steps, is what it enters in that step. -/
theorem told_request (engine : Engine η) {r : Request} (hrow : r.makesRow = false)
    (hkeep : r.deletes ≠ some subject) :
    Moves (fun s s' => Told subject (r.enters s s') s s') (r.run engine) := by
  have hcount : ∀ {owner : Subject} (entry : Tally → Entry), CoversLog fun u : State η → State η =>
      ∀ s, Told subject (s.counted (u s) owner entry) s (u s) :=
    fun entry _ _ _ => told_same entry fun _ => rfl
  have hsilent : ∀ {α : Type} {p : Operation η α}, Commits (Silent subject) p.run →
      Moves (Told subject []) (succeeds p) :=
    fun hp => (commits_succeeds hp).moves (fun _ hu s => told_nil (hu s)) fun _ => told_nil rfl
  cases r with
  | updateCode id code => exact hsilent (silent_updateScript id fun _ => rfl)
  | renameScript id name => exact hsilent (silent_updateScript id fun _ => rfl)
  | setScriptEnabled id enabled => exact hsilent (silent_updateScript id fun _ => rfl)
  | deleteScript id =>
    exact hsilent (silent_deleteScript fun he => hkeep (congrArg some he.symm))
  | runScript id context =>
    exact (commits_succeeds (commits_runScript (hcount _).world engine id context fun now s =>
      told_countScript s id subject now)).moves (fun _ hu => hu) fun _ => told_same _ fun _ => rfl
  | runRule id index rule context =>
    exact ((commits_superviseRule (hcount _).world engine id context (fun now s =>
      told_countScript s id subject now) index rule).bind fun _ => .done _).moves
        (fun _ hu => hu) fun _ => told_same _ fun _ => rfl
  | updateWorkflow id patch =>
    refine told_changeWorkflow (fun w => ?_) (fun tally hne => ?_) ?_
    · cases hvars : patch.vars with
      | none => simp [Tally.replay, Workflow.patched, hvars]
      | some vars => simp [Tally.replay, Tally.after, Workflow.patched, hvars]
    · cases hvars : patch.vars with
      | none => simp [Tally.replay]
      | some vars => simp [Tally.replay, Tally.after, hne]
    · cases patch.vars with
      | none => rfl
      | some vars => rfl
  | addNode id templateId position => exact hsilent (silent_addNode engine id templateId position)
  | updateNode id nodeId patch =>
    refine hsilent (silent_changeNode id nodeId fun w pair h => ?_)
    obtain ⟨node, -, rfl⟩ := Option.map_eq_some_iff.mp h
    exact ⟨rfl, rfl⟩
  | removeNode id nodeId =>
    refine hsilent (silent_changeNode id nodeId fun w pair h => ?_)
    obtain ⟨node, -, rfl⟩ := Option.map_eq_some_iff.mp h
    exact ⟨rfl, rfl⟩
  | connect id source target sourceHandle targetHandle =>
    exact hsilent (silent_connect id source target sourceHandle targetHandle)
  | disconnect id connectionId => exact hsilent (silent_changeWorkflow id fun _ => ⟨rfl, rfl⟩)
  | setVariable id name value =>
    exact told_changeWorkflow (fun _ => if_pos rfl) (fun _ hne => if_neg hne) rfl
  | executeWorkflow id context =>
    exact (commits_succeeds (commits_executeWorkflow engine id context (hcount _) fun now vars s =>
      told_countWorkflow s id subject now vars)).moves (fun _ hu => hu)
        fun _ => told_same _ fun _ => rfl
  | runWorkflow id context =>
    exact ((commits_runWorkflow engine id context (hcount _) fun now vars s =>
      told_countWorkflow s id subject now vars).bind fun _ => .done _).moves (fun _ hu => hu)
        fun _ => told_same _ fun _ => rfl
  | deleteWorkflow id =>
    exact hsilent (silent_deleteWorkflow fun he => hkeep (congrArg some he.symm))
  | createScript | convertScript | createWorkflow | importWorkflow | duplicateWorkflow => cases hrow

end Requests

end Automation.Engine
