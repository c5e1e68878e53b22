import Automation.Proofs.Engine.ScriptRun
import Automation.Proofs.Engine.Unsaved
import Automation.Proofs.Routine.Invariant
import Automation.Proofs.Table.File

/-!
# Requests that are refused

An operation that finds that something is missing, or that a script does not compile, ends there.
Some operations find out only while they change a row; then they put it back as it was. So whatever
is refused leaves the stores, the executions and the handlers as they are, provided that the storage
works: with storage that does not work an operation may have changed a row that cannot be saved.
-/
namespace Automation

/-- A change that can be saved answers, unless it leaves all as it is. -/
def Table.Settles {α β : Type} (change : Table.Change α β) : Prop :=
  ∀ table storage, Table.Works table storage →
    (∃ result, (change (table, storage)).1 = .ok result) ∨
      (change (table, storage)).2 = (table, storage)

namespace Table

variable {α β : Type}

theorem settles_insert (format : RowFormat α) (id : Uuid) (row : α) :
    Settles (Table.insert format id row) := by
  intro table storage hworks
  obtain ⟨after, hinsert, -⟩ := insert_of_works format id row hworks
  exact Or.inl ⟨(), congrArg Prod.fst hinsert⟩

theorem settles_update (format : RowFormat α) (id : Uuid) (change : α → β × α) :
    Settles (Table.update format id change) := by
  intro table storage hworks
  cases hrow : table.rows.get? id with
  | none => exact Or.inr (congrArg Prod.snd (update_of_none format change storage hrow))
  | some row =>
    have hsave := @save_eq_of_works _ _ format (change row).1
      { table with rows := table.rows.insert id (change row).2 } storage hworks
    rw [update_of_some format change storage hrow, hsave]
    exact Or.inl ⟨_, rfl⟩

theorem settles_delete (format : RowFormat α) (id : Uuid) :
    Settles (Table.delete format id) := by
  intro table storage hworks
  cases hrow : table.rows.get? id with
  | none => exact Or.inr (congrArg Prod.snd (delete_of_none format storage hrow))
  | some row =>
    have hsave := @save_eq_of_works _ _ format row
      { table with rows := table.rows.erase id } storage hworks
    rw [delete_of_some format storage hrow, hsave]
    exact Or.inl ⟨_, rfl⟩

end Table

namespace Engine

open Routine

variable {η α β γ : Type}

/-- An answer that says why nothing was done. -/
def IsRefused (answer : Except EngineError α) : Prop :=
  ∃ e, answer = .error e ∧ ∀ cause, e ≠ .database cause

theorem not_isRefused_ok (a : α) : ¬ IsRefused (.ok a : Except EngineError α) :=
  fun ⟨_, he, _⟩ => nomatch he

/-- Nothing has changed but the clock, the supply of identifiers and how often an unknown template
was asked for. A row that was put back as it was is saved again, though. -/
structure Unmoved (counted : UInt64) (s s' : State η) : Prop where
  scripts : s'.scripts = s.scripts
  workflows : s'.workflows = s.workflows
  executions : s'.executions = s.executions
  handlers : s'.world.handlers = s.world.handlers
  unknownDispatches : s'.world.unknownDispatches = s.world.unknownDispatches
  unknownTemplates : s'.unknownTemplates = s.unknownTemplates + counted
  storage : s'.storage = s.storage ∨ s.workflows.rows ≠ Dict.empty ∧
    s'.storage = Table.afterSave workflowFormat s.workflows s.storage

namespace Unmoved

variable {counted : UInt64} {s t u : State η}

theorem refl (s : State η) : Unmoved 0 s s :=
  ⟨rfl, rfl, rfl, rfl, rfl, (UInt64.add_zero _).symm, Or.inl rfl⟩

/-- The world has moved on, but its handlers were not called. -/
theorem of_world (s : State η) (world : World η) (handlers : world.handlers = s.world.handlers)
    (unknownDispatches : world.unknownDispatches = s.world.unknownDispatches) :
    Unmoved 0 s { s with world } :=
  ⟨rfl, rfl, rfl, handlers, unknownDispatches, (UInt64.add_zero _).symm, Or.inl rfl⟩

/-- Something else has gone before that left the storage alone. -/
theorem after {before : UInt64} (h : Unmoved counted t u) (hst : Unmoved before s t)
    (hstorage : t.storage = s.storage) : Unmoved (before + counted) s u where
  scripts := h.scripts.trans hst.scripts
  workflows := h.workflows.trans hst.workflows
  executions := h.executions.trans hst.executions
  handlers := h.handlers.trans hst.handlers
  unknownDispatches := h.unknownDispatches.trans hst.unknownDispatches
  unknownTemplates := by rw [h.unknownTemplates, hst.unknownTemplates, UInt64.add_assoc]
  storage := by
    have hsaved := h.storage
    rw [hst.workflows, hstorage] at hsaved
    exact hsaved

/-- What has been saved already is on the storage as it was. -/
theorem storage_eq (h : Unmoved counted s t)
    (hs : s.workflows.rows = Dict.empty ∨ s.workflows.Saved workflowFormat s.storage) :
    t.storage = s.storage := by
  rcases h.storage with hsame | ⟨hrows, hsaved⟩
  · exact hsame
  · rcases hs with hempty | hkept
    · exact absurd hempty hrows
    · rw [hsaved, Table.afterSave_of_saved hkept]

end Unmoved

/-- On storage that works the routine leaves all as it is, and does not wait, if it is refused. -/
def Declines (p : Routine (State η) α) (refused : α → Prop) (counted : UInt64) :
    Prop :=
  ∀ s, s.Works s.storage → ∀ answer, (p.runAlone s).outcome = .ok answer → refused answer →
    (p.runAlone s).pauses = [] ∧ Unmoved counted s (p.runAlone s).state

section Steps

/-- One commit. -/
theorem declines_attempt {step : State η → Except EngineError α × State η}
    (h : ∀ s, s.Works s.storage → IsRefused (step s).1 → Unmoved 0 s (step s).2) :
    Declines (attempt step).run IsRefused 0 := by
  intro s hworks answer hanswer hrefused
  obtain rfl : (step s).1 = answer := Except.ok.inj hanswer
  exact ⟨rfl, h s hworks hrefused⟩

/-- A commit that touches nothing, with a routine after it. -/
theorem declines_bind {step : State η → Except EngineError α × State η} {f : α → Operation η β}
    {refused : Except EngineError β → Prop} {counted : UInt64}
    (h : ∀ s, Unmoved counted s (step s).2 ∧ (step s).2.storage = s.storage)
    (hf : ∀ a, Declines (f a).run refused 0) :
    Declines (attempt step >>= f).run refused counted := by
  intro s hworks answer hanswer hrefused
  have hrun : (attempt step >>= f).run.runAlone s =
      (ExceptT.bindCont f (step s).1).runAlone (step s).2 := rfl
  obtain ⟨hquiet, hstorage⟩ := h s
  rw [hrun] at hanswer ⊢
  cases hstep : (step s).1 with
  | error e => exact ⟨rfl, hquiet⟩
  | ok a =>
    rw [hstep] at hanswer
    have hthere : (step s).2.Works (step s).2.storage := by
      rw [hstorage]
      exact ⟨hquiet.scripts ▸ hworks.scripts, hquiet.workflows ▸ hworks.workflows⟩
    obtain ⟨hpauses, hrest⟩ := hf a (step s).2 hthere answer hanswer hrefused
    exact ⟨hpauses, UInt64.add_zero counted ▸ hrest.after hquiet hstorage⟩

theorem declines_getScript {f : Script → Operation η β} {refused : Except EngineError β → Prop}
    (id : Uuid) (hf : ∀ script, Declines (f script).run refused 0) :
    Declines (getScript id >>= f).run refused 0 :=
  @declines_bind _ _ _ (fun s => ((s.scripts.get id).mapError (.ofStorage (.scriptNotFound id)), s))
    _ _ _ (fun s => ⟨.refl s, rfl⟩) hf

theorem declines_getWorkflow {f : Workflow → Operation η β} {refused : Except EngineError β → Prop}
    (id : Uuid) (hf : ∀ w, Declines (f w).run refused 0) :
    Declines (getWorkflow id >>= f).run refused 0 :=
  @declines_bind _ _ _
    (fun s => ((s.workflows.get id).mapError (.ofStorage (.workflowNotFound id)), s))
    _ _ _ (fun s => ⟨.refl s, rfl⟩) hf

theorem declines_fresh {make : Uuid → Instant → α} {f : α → Operation η β}
    {refused : Except EngineError β → Prop} (hf : ∀ a, Declines (f a).run refused 0) :
    Declines (fresh make >>= f).run refused 0 :=
  declines_bind (fun s => ⟨.of_world s (s.takeId.2.now.2.world) rfl rfl, rfl⟩) hf

theorem declines_done {answer : α} {refused : α → Prop} (h : ¬ refused answer) :
    Declines (.done answer : Routine (State η) α) refused 0 := by
  rintro s - _ ⟨⟩ hrefused
  exact absurd hrefused h

end Steps

section Stores

variable (tell : Except StorageError β → Except EngineError α)

/-- A change of the scripts that is only refused if there is nothing to change. -/
theorem declines_changeScripts {change : Table.Change Script β} (h : Table.Settles change)
    (htell : ∀ result, ¬ IsRefused (tell (.ok result))) :
    Declines (attempt fun s : State η =>
      (tell (s.changeScripts change).1, (s.changeScripts change).2)).run IsRefused 0 := by
  refine declines_attempt fun s hworks hrefused => ?_
  rcases h s.scripts s.storage hworks.scripts with ⟨result, hok⟩ | hkeep
  · have hsame : (s.changeScripts change).1 = .ok result := hok
    rw [hsame] at hrefused
    exact absurd hrefused (htell result)
  · have hsame : (s.changeScripts change).2 =
        { s with
          scripts := (change (s.scripts, s.storage)).2.1
          storage := (change (s.scripts, s.storage)).2.2 } := rfl
    show Unmoved 0 s (s.changeScripts change).2
    rw [hsame, hkeep]
    exact .refl s

/-- A change of the workflows that is only refused if there is nothing to change. -/
theorem declines_changeWorkflows {change : Table.Change Workflow β} (h : Table.Settles change)
    (htell : ∀ result, ¬ IsRefused (tell (.ok result))) :
    Declines (attempt fun s : State η =>
      (tell (s.changeWorkflows change).1, (s.changeWorkflows change).2)).run IsRefused 0 := by
  refine declines_attempt fun s hworks hrefused => ?_
  rcases h s.workflows s.storage hworks.workflows with ⟨result, hok⟩ | hkeep
  · have hsame : (s.changeWorkflows change).1 = .ok result := hok
    rw [hsame] at hrefused
    exact absurd hrefused (htell result)
  · have hsame : (s.changeWorkflows change).2 =
        { s with
          workflows := (change (s.workflows, s.storage)).2.1
          storage := (change (s.workflows, s.storage)).2.2 } := rfl
    show Unmoved 0 s (s.changeWorkflows change).2
    rw [hsame, hkeep]
    exact .refl s

theorem declines_updateScript (id : Uuid) (change : Script → Script) :
    Declines (updateScript id change : Operation η Script).run IsRefused 0 :=
  declines_changeScripts _ (Table.settles_update scriptFormat id _) not_isRefused_ok

/-- A count that crashes where there is no more room for it. -/
theorem declines_count {full : State η → Prop} [DecidablePred full] {message : String}
    {step : State η → Except EngineError α × State η}
    (h : Declines (attempt step).run IsRefused 0) :
    Declines (.commit (fun s => if full s then s else (step s).2) fun s =>
      if full s then .crash message else .done (step s).1) IsRefused 0 := by
  intro s hworks answer hanswer hrefused
  simp only [runAlone] at hanswer ⊢
  by_cases hfull : full s
  · rw [if_pos hfull] at hanswer
    cases hanswer
  · rw [if_neg hfull] at hanswer
    rw [if_neg hfull, if_neg hfull]
    exact h s hworks answer hanswer hrefused

theorem declines_recordScriptRun (id : Uuid) (time : Instant) :
    Declines (recordScriptRun id time : Operation η Unit).run IsRefused 0 := by
  rw [run_recordScriptRun]
  exact declines_count (declines_changeScripts (Except.mapError (.ofStorage (.scriptNotFound id)))
    (Table.settles_update scriptFormat id fun script => ((), script.afterRun time))
    not_isRefused_ok)

theorem declines_recordWorkflowRun (id : Uuid) (time : Instant) (vars : Variables) :
    Declines (recordWorkflowRun id time vars : Operation η Unit).run IsRefused 0 := by
  rw [run_recordWorkflowRun]
  exact declines_count (declines_changeWorkflows
    (Except.mapError (.ofStorage (.workflowNotFound id)))
    (Table.settles_update workflowFormat id fun w => ((), w.afterRun time vars))
    not_isRefused_ok)

theorem declines_deleteScript (id : Uuid) :
    Declines (deleteScript id : Operation η Unit).run IsRefused 0 :=
  declines_changeScripts
    (fun answer => (answer.map fun _ => ()).mapError (.ofStorage (.scriptNotFound id)))
    (Table.settles_delete scriptFormat id) fun _ => not_isRefused_ok ()

theorem declines_deleteWorkflow (id : Uuid) :
    Declines (deleteWorkflow id : Operation η Unit).run IsRefused 0 :=
  declines_changeWorkflows
    (fun answer => (answer.map fun _ => ()).mapError (.ofStorage (.workflowNotFound id)))
    (Table.settles_delete workflowFormat id) fun _ => not_isRefused_ok ()

theorem declines_insertWorkflow (w : Workflow) :
    Declines (insertWorkflow w : Operation η Workflow).run IsRefused 0 :=
  declines_changeWorkflows (fun answer => (answer.map fun _ => w).mapError .database)
    (Table.settles_insert workflowFormat w.id w) fun _ => not_isRefused_ok w

/-- The script is stored after it was made, and a row that is set need not be there. -/
theorem declines_createScript (name code : String) :
    Declines (createScript name code : Operation η Script).run IsRefused 0 := by
  refine declines_attempt fun s hworks hrefused => absurd hrefused ?_
  let script := Script.create s.takeId.1 s.takeId.2.now.1 name code
  obtain ⟨storage, hinsert, -⟩ := Table.insert_of_works scriptFormat script.id script hworks.scripts
  have hsame : (s.takeId.2.now.2.changeScripts (Table.insert scriptFormat script.id script)).1 =
      .ok () := congrArg Prod.fst hinsert
  show ¬ IsRefused (((s.takeId.2.now.2.changeScripts
    (Table.insert scriptFormat script.id script)).1.map fun () => script).mapError
      EngineError.database)
  rw [hsame]
  exact not_isRefused_ok script

end Stores

section Rows

variable {id : Uuid} {change : Workflow → β × Workflow} {s : State η}

/-- The state after a workflow was replaced. -/
def State.replaced (s : State η) (id : Uuid) (w : Workflow) : State η :=
  let workflows := { s.workflows with rows := s.workflows.rows.insert id w }
  { s with workflows, storage := Table.afterSave workflowFormat workflows s.storage }

/-- A workflow that is put back as it was. -/
theorem unmoved_replaced {w : Workflow} (h : s.workflows.rows.get? id = some w) :
    Unmoved 0 s (s.replaced id w) := by
  have hworkflows : (s.replaced id w).workflows = s.workflows := by
    show { s.workflows with rows := s.workflows.rows.insert id w } = s.workflows
    rw [Dict.insert_of_get? h]
  refine ⟨rfl, hworkflows, rfl, rfl, rfl, (UInt64.add_zero _).symm,
    Or.inr ⟨fun hempty => ?_, ?_⟩⟩
  · rw [hempty] at h
    cases h
  · show Table.afterSave workflowFormat (s.replaced id w).workflows s.storage = _
    rw [hworkflows]

/-- What a change of a workflow comes to on storage that works. -/
theorem runAlone_changeWorkflow (change : Workflow → β × Workflow) (id : Uuid)
    (hworks : s.workflows.Works s.storage) :
    (changeWorkflow id change : Operation η β).run.runAlone s =
      match s.workflows.rows.get? id with
      | none => ⟨.ok (.error (.workflowNotFound id)), s, []⟩
      | some w => ⟨.ok (.ok (change w).1), s.replaced id (change w).2, []⟩ := by
  show (⟨.ok ((s.changeWorkflows (Table.update workflowFormat id change)).1.mapError _),
    (s.changeWorkflows (Table.update workflowFormat id change)).2, []⟩ : Ending _ _) = _
  rw [State.changeWorkflows]
  cases hrow : s.workflows.rows.get? id with
  | none =>
    rw [Table.update_of_none workflowFormat change s.storage hrow]
    rfl
  | some w =>
    have hsave := @Table.save_eq_of_works _ _ workflowFormat (change w).1
      { s.workflows with rows := s.workflows.rows.insert id (change w).2 } s.storage hworks
    rw [Table.update_of_some workflowFormat change s.storage hrow, hsave]
    rfl

theorem declines_changeWorkflow {refused : Except EngineError β → Prop}
    (h : ∀ w, refused (.ok (change w).1) → (change w).2 = w) :
    Declines (changeWorkflow id change : Operation η β).run refused 0 := by
  intro s hworks answer hanswer hrefused
  rw [runAlone_changeWorkflow change id hworks.workflows] at hanswer ⊢
  cases hrow : s.workflows.rows.get? id with
  | none => exact ⟨rfl, .refl s⟩
  | some w =>
    rw [hrow] at hanswer
    obtain rfl := Except.ok.inj hanswer
    refine ⟨rfl, ?_⟩
    show Unmoved 0 s (s.replaced id (change w).2)
    rw [h w hrefused]
    exact unmoved_replaced hrow

/-- What comes after the change only tells of it. -/
theorem declines_tell {f : β → Operation η γ} {refused : Except EngineError γ → Prop}
    (h : ∀ w, ∃ answer, (f (change w).1).run = Routine.done answer ∧
      (refused answer → (change w).2 = w)) :
    Declines (changeWorkflow id change >>= f).run refused 0 := by
  intro s hworks answer hanswer hrefused
  have hrun : (changeWorkflow id change >>= f).run.runAlone s =
      ((changeWorkflow id change).run.runAlone s).andThen
        fun result s => (ExceptT.bindCont f result).runAlone s := runAlone_bind _ _ s
  rw [hrun, runAlone_changeWorkflow change id hworks.workflows] at hanswer ⊢
  cases hrow : s.workflows.rows.get? id with
  | none => exact ⟨rfl, .refl s⟩
  | some w =>
    obtain ⟨told, hdone, hkeep⟩ := h w
    have hcont : (ExceptT.bindCont f (.ok (change w).1) : Routine (State η) _) = .done told := hdone
    simp only [hrow, Ending.andThen_ok, hcont] at hanswer ⊢
    obtain rfl : told = answer := Except.ok.inj hanswer
    refine ⟨rfl, ?_⟩
    show Unmoved 0 s (s.replaced id (change w).2)
    rw [hkeep hrefused]
    exact unmoved_replaced hrow

/-- A change of a node that is not there puts the workflow back. -/
theorem declines_onNode (nodeId : String) (find : Workflow → Option (Node × Workflow)) :
    Declines (do
      let node ← changeWorkflow id fun w => onNode (find w) w
      orNodeNotFound id nodeId node : Operation η Node).run IsRefused 0 := by
  refine declines_tell fun w => ?_
  cases find w with
  | none => exact ⟨_, rfl, fun _ => rfl⟩
  | some pair => exact ⟨_, rfl, fun hrefused => absurd hrefused (not_isRefused_ok pair.1)⟩

theorem declines_connect (source target : String) (sourceHandle targetHandle : Option String) :
    Declines (connect id source target sourceHandle targetHandle : Operation η Connection).run
      IsRefused 0 := by
  refine declines_fresh fun connection => declines_tell fun w => ?_
  cases w.connect connection with
  | error e => exact ⟨_, rfl, fun _ => rfl⟩
  | ok changed => exact ⟨_, rfl, fun hrefused => absurd hrefused (not_isRefused_ok connection)⟩

/-- Removing a connection that is not there removes none. -/
theorem disconnect_of_not_hasConnection {w : Workflow} {connectionId : String}
    (h : w.hasConnection connectionId = false) : w.disconnect connectionId = w := by
  have hkeep : w.connections.filter (fun c => c.id ≠ connectionId) = w.connections := by
    rw [List.filter_eq_self]
    intro c hc
    have hne := List.any_eq_false.mp h c hc
    simpa using hne
  rw [Workflow.disconnect, hkeep]

theorem declines_disconnect (connectionId : String) :
    Declines (disconnect id connectionId : Operation η Bool).run
      (fun answer => IsRefused answer ∨ answer = .ok false) 0 := by
  refine declines_changeWorkflow fun w hrefused => ?_
  rcases hrefused with hrefused | hfalse
  · exact absurd hrefused (not_isRefused_ok _)
  · exact disconnect_of_not_hasConnection (Except.ok.inj hfalse)

end Rows

theorem declines_addNode (engine : Engine η) (id : Uuid) (templateId : String) (position : Point) :
    Declines (engine.addNode id templateId position).run
      (fun answer => IsRefused answer ∨ answer = .ok none)
      (if (engine.catalog.get? templateId).isNone then 1 else 0) := by
  unfold addNode
  cases engine.catalog.get? templateId with
  | none =>
    refine declines_bind (fun _ => ⟨⟨rfl, rfl, rfl, rfl, rfl, rfl, Or.inl rfl⟩, rfl⟩) fun _ => ?_
    refine declines_getWorkflow id fun _ => ?_
    rintro s - _ ⟨⟩ -
    exact ⟨rfl, .refl s⟩
  | some template =>
    refine declines_fresh fun node => declines_tell fun w => ⟨.ok (some node), rfl, ?_⟩
    intro hrefused
    rcases hrefused with hrefused | hnone
    · exact absurd hrefused (not_isRefused_ok _)
    · cases hnone

theorem declines_convertScript (engine : Engine η) (id : Uuid) :
    Declines (engine.convertScript id).run IsRefused 0 := by
  refine declines_getScript id fun script => declines_bind (fun s => ?_) declines_insertWorkflow
  dsimp only
  cases Workflow.ofScript script engine.catalog s.now.1 s.now.2.world.ids with
  | error e => exact ⟨.of_world s s.now.2.world rfl rfl, rfl⟩
  | ok pair => exact ⟨.of_world s { s.now.2.world with ids := pair.2 } rfl rfl, rfl⟩

/-- Nothing comes of a text that cannot be imported; any other is stored. -/
theorem declines_importWorkflow (text : String) :
    Declines (importWorkflow text : Routine (State η) _) (· = none) 0 := by
  intro s hworks answer hanswer hnone
  cases htext : importable? text with
  | none =>
    rw [importWorkflow, htext]
    exact ⟨rfl, .refl s⟩
  | some w =>
    let stored : Workflow := { w with id := s.takeId.1, createdAt := s.takeId.2.now.1 }
    obtain ⟨after, hinsert, -⟩ :=
      Table.insert_of_works workflowFormat stored.id stored hworks.workflows
    have houtcome : ((importWorkflow text).runAlone s).outcome =
        .ok (((Table.insert workflowFormat stored.id stored (s.workflows, s.storage)).1.map
          fun () => stored).mapError EngineError.database).toOption := by
      rw [importWorkflow, htext]
      rfl
    rw [houtcome, hinsert] at hanswer
    rw [hnone] at hanswer
    cases hanswer

/-- The rules of a script leave the scripts alone. -/
theorem maintains_scripts (engine : Engine η) (id : Uuid) (context : Context) (index : Nat)
    (rules : List Rule) (scripts : Table Script) :
    Maintains (fun s => s.scripts = scripts) (engine.runRules id context index rules) :=
  .of_commits (commits_runRules (fun _ _ hs => hs) engine id context index rules)

/-- Of a count that is refused the script was missing. -/
theorem missing_of_concludeScript {id : Uuid} {runs : List ScriptRun} {s : State η}
    {answer : Except EngineError (List ScriptRun)}
    (h : ((concludeScript id runs).runAlone s).outcome = .ok answer) (hrefused : IsRefused answer) :
    s.scripts.rows.get? id = none := by
  simp only [concludeScript_eq, runAlone] at h
  by_cases hfull : s.now.2.Full (.script id)
  · rw [if_pos hfull] at h
    cases h
  · rw [if_neg hfull] at h
    have hcount := counting_addScriptRun id s.now.1 runs hfull
    rw [Except.ok.inj h] at hcount
    generalize (addScriptRun id s.now.1 s.now.2).2 = counted at hcount
    cases hcount with
    | counted hrow => exact absurd hrefused (not_isRefused_ok runs)
    | missing hrow => exact hrow
    | unsaved cause hrow =>
      obtain ⟨e, he, hne⟩ := hrefused
      exact absurd (Except.error.inj he).symm (hne _)

/-- A run of a script is refused at its first look, or not at all: once the rules run, the script
stays where it is. -/
theorem first_look_of_runScript {engine : Engine η} {id : Uuid} {context : Context} {s : State η}
    {answer : Except EngineError (List ScriptRun)}
    (h : ((engine.runScript id context).run.runAlone s).outcome = .ok answer)
    (hrefused : IsRefused answer) :
    (s.scripts.rows.get? id = none ∧ answer = .error (.scriptNotFound id)) ∨
      ∃ script cause, s.scripts.rows.get? id = some script ∧ script.program = .error cause ∧
        answer = .error (.uncompiled cause) := by
  simp only [run_runScript, runAlone] at h
  cases hrow : s.scripts.rows.get? id with
  | none =>
    rw [hrow] at h
    exact Or.inl ⟨rfl, (Except.ok.inj h).symm⟩
  | some script =>
    simp only [hrow] at h
    cases hprogram : script.program with
    | error cause =>
      simp only [hprogram] at h
      exact Or.inr ⟨script, cause, rfl, hprogram, (Except.ok.inj h).symm⟩
    | ok program =>
      simp only [hprogram, runAlone_bind] at h
      have hstays : ((engine.runRules id context 0 program.rules).runAlone s).state.scripts =
          s.scripts := (maintains_scripts engine id context 0 program.rules s.scripts).runAlone rfl
      generalize (engine.runRules id context 0 program.rules).runAlone s = ending at h hstays
      obtain ⟨outcome, t, pauses⟩ := ending
      cases outcome with
      | error message => cases h
      | ok runs =>
        have hmissing := missing_of_concludeScript h hrefused
        rw [hstays, hrow] at hmissing
        cases hmissing

theorem runScript_of_uncompiled {engine : Engine η} {id : Uuid} {context : Context} {s : State η}
    {script : Script} {cause : SyntaxError} (hrow : s.scripts.rows.get? id = some script)
    (hprogram : script.program = .error cause) :
    (engine.runScript id context).run.runAlone s = ⟨.ok (.error (.uncompiled cause)), s, []⟩ := by
  simp only [run_runScript, runAlone, hrow, hprogram]
  rfl

theorem runScript_of_refused {engine : Engine η} {id : Uuid} {context : Context} {s : State η}
    {answer : Except EngineError (List ScriptRun)}
    (h : ((engine.runScript id context).run.runAlone s).outcome = .ok answer)
    (hrefused : IsRefused answer) (other : Engine η) :
    (other.runScript id context).run.runAlone s = ⟨.ok answer, s, []⟩ := by
  rcases first_look_of_runScript h hrefused with ⟨hrow, rfl⟩ | ⟨script, cause, hrow, hprogram, rfl⟩
  · simp only [run_runScript, runAlone, hrow]
    rfl
  · exact runScript_of_uncompiled hrow hprogram

/-- A run of a workflow is refused at its first look, or not at all. -/
theorem executeWorkflow_of_refused {engine : Engine η} {id : Uuid} {context : Context} {s : State η}
    {answer : Except EngineError Execution}
    (h : ((engine.executeWorkflow id context).run.runAlone s).outcome = .ok answer)
    (hrefused : IsRefused answer) (other : Engine η) :
    (other.executeWorkflow id context).run.runAlone s = ⟨.ok answer, s, []⟩ := by
  simp only [run_executeWorkflow, runAlone] at h ⊢
  cases hget : s.workflows.get id with
  | error e =>
    simp only [hget] at h ⊢
    obtain rfl := Except.ok.inj h
    rfl
  | ok w =>
    simp only [hget] at h
    rw [runAlone_bind] at h
    change (runAlone (engine.runToEnd w _ context >>= engine.conclude id) _).outcome = _ at h
    rw [runAlone_bind] at h
    generalize (engine.runToEnd w _ context).runAlone _ = ending at h
    obtain ⟨outcome, t, pauses⟩ := ending
    cases outcome with
    | error message => cases h
    | ok result =>
      simp only [Ending.andThen_ok, conclude_eq, runAlone] at h
      split at h
      · cases h
      · obtain rfl : Except.ok result.1 = answer := Except.ok.inj h
        exact absurd hrefused (not_isRefused_ok result.1)

/-- The operations that can be refused, each with the answers that say that it was, and with how
often it counts an unknown template. -/
inductive Refusable : ∀ {α : Type}, (Engine η → Routine (State η) α) → (α → Prop) →
    (Engine η → UInt64) → Prop where
  | createScript (name code : String) :
      Refusable (fun _ => (createScript name code).run) IsRefused fun _ => 0
  | getScript (id : Uuid) : Refusable (fun _ => (getScript id).run) IsRefused fun _ => 0
  | updateCode (id : Uuid) (code : String) :
      Refusable (fun _ => (updateCode id code).run) IsRefused fun _ => 0
  | renameScript (id : Uuid) (name : String) :
      Refusable (fun _ => (renameScript id name).run) IsRefused fun _ => 0
  | setScriptEnabled (id : Uuid) (enabled : Bool) :
      Refusable (fun _ => (setScriptEnabled id enabled).run) IsRefused fun _ => 0
  | deleteScript (id : Uuid) : Refusable (fun _ => (deleteScript id).run) IsRefused fun _ => 0
  | recordScriptRun (id : Uuid) (time : Instant) :
      Refusable (fun _ => (recordScriptRun id time).run) IsRefused fun _ => 0
  | runScript (id : Uuid) (context : Context) :
      Refusable (fun engine => (engine.runScript id context).run) IsRefused fun _ => 0
  | convertScript (id : Uuid) :
      Refusable (fun engine => (engine.convertScript id).run) IsRefused fun _ => 0
  | createWorkflow (name : String) (description : Option String) (trigger : Trigger) :
      Refusable (fun _ => (createWorkflow name description trigger).run) IsRefused fun _ => 0
  | insertWorkflow (w : Workflow) :
      Refusable (fun _ => (insertWorkflow w).run) IsRefused fun _ => 0
  | getWorkflow (id : Uuid) : Refusable (fun _ => (getWorkflow id).run) IsRefused fun _ => 0
  | updateWorkflow (id : Uuid) (patch : Workflow.Patch) :
      Refusable (fun _ => (updateWorkflow id patch).run) IsRefused fun _ => 0
  | deleteWorkflow (id : Uuid) :
      Refusable (fun _ => (deleteWorkflow id).run) IsRefused fun _ => 0
  | duplicateWorkflow (id : Uuid) :
      Refusable (fun _ => (duplicateWorkflow id).run) IsRefused fun _ => 0
  /-- Nothing comes of a template that nobody knows, but that it is counted. -/
  | addNode (id : Uuid) (templateId : String) (position : Point) :
      Refusable (fun engine => (engine.addNode id templateId position).run)
        (fun answer => IsRefused answer ∨ answer = .ok none)
        fun engine => if (engine.catalog.get? templateId).isNone then 1 else 0
  | updateNode (id : Uuid) (nodeId : String) (patch : Node.Patch) :
      Refusable (fun _ => (updateNode id nodeId patch).run) IsRefused fun _ => 0
  | removeNode (id : Uuid) (nodeId : String) :
      Refusable (fun _ => (removeNode id nodeId).run) IsRefused fun _ => 0
  | connect (id : Uuid) (source target : String) (sourceHandle targetHandle : Option String) :
      Refusable (fun _ => (connect id source target sourceHandle targetHandle).run) IsRefused
        fun _ => 0
  /-- Nothing comes of a connection that is not there. -/
  | disconnect (id : Uuid) (connectionId : String) :
      Refusable (fun _ => (disconnect id connectionId).run)
        (fun answer => IsRefused answer ∨ answer = .ok false) fun _ => 0
  | setVariable (id : Uuid) (name : String) (value : Json) :
      Refusable (fun _ => (setVariable id name value).run) IsRefused fun _ => 0
  | recordWorkflowRun (id : Uuid) (time : Instant) (vars : Variables) :
      Refusable (fun _ => (recordWorkflowRun id time vars).run) IsRefused fun _ => 0
  | exportWorkflow (id : Uuid) :
      Refusable (fun _ => (exportWorkflow id).run) IsRefused fun _ => 0
  /-- Nothing comes of a text that cannot be imported. -/
  | importWorkflow (text : String) :
      Refusable (fun _ => importWorkflow text) (· = none) fun _ => 0
  | executeWorkflow (id : Uuid) (context : Context) :
      Refusable (fun engine => (engine.executeWorkflow id context).run) IsRefused fun _ => 0

theorem Refusable.declines {p : Engine η → Routine (State η) α} {refused : α → Prop}
    {counted : Engine η → UInt64} (h : Refusable p refused counted) (engine : Engine η) :
    Declines (p engine) refused (counted engine) := by
  cases h with
  | createScript name code => exact declines_createScript name code
  | getScript id => exact fun s _ _ _ _ => ⟨rfl, .refl s⟩
  | updateCode id code => exact declines_updateScript id _
  | renameScript id name => exact declines_updateScript id _
  | setScriptEnabled id enabled => exact declines_updateScript id _
  | deleteScript id => exact declines_deleteScript id
  | recordScriptRun id time => exact declines_recordScriptRun id time
  | runScript id context =>
    intro s _ answer hanswer hrefused
    rw [runScript_of_refused hanswer hrefused]
    exact ⟨rfl, .refl s⟩
  | convertScript id => exact declines_convertScript engine id
  | createWorkflow name description trigger =>
    exact declines_fresh fun w => declines_insertWorkflow w
  | insertWorkflow w => exact declines_insertWorkflow w
  | getWorkflow id => exact fun s _ _ _ _ => ⟨rfl, .refl s⟩
  | updateWorkflow id patch =>
    exact declines_changeWorkflow fun w hrefused => absurd hrefused (not_isRefused_ok _)
  | deleteWorkflow id => exact declines_deleteWorkflow id
  | duplicateWorkflow id =>
    exact declines_getWorkflow id fun w => declines_fresh fun copy => declines_insertWorkflow copy
  | addNode id templateId position => exact declines_addNode engine id templateId position
  | updateNode id nodeId patch => exact declines_onNode nodeId _
  | removeNode id nodeId => exact declines_onNode nodeId _
  | connect id source target sourceHandle targetHandle =>
    exact declines_connect source target sourceHandle targetHandle
  | disconnect id connectionId => exact declines_disconnect connectionId
  | setVariable id name value =>
    exact declines_changeWorkflow fun w hrefused => absurd hrefused (not_isRefused_ok _)
  | recordWorkflowRun id time vars => exact declines_recordWorkflowRun id time vars
  | exportWorkflow id =>
    exact declines_getWorkflow id fun w => declines_done (not_isRefused_ok _)
  | importWorkflow text => exact declines_importWorkflow text
  | executeWorkflow id context =>
    intro s _ answer hanswer hrefused
    rw [executeWorkflow_of_refused hanswer hrefused]
    exact ⟨rfl, .refl s⟩

/-- An engine with other commands, behaviours and limits refuses the same in the same way, so
nothing was asked of them. -/
theorem Refusable.heedless {p : Engine η → Routine (State η) α} {refused : α → Prop}
    {counted : Engine η → UInt64} (h : Refusable p refused counted) {engine other : Engine η}
    (hcatalog : other.catalog = engine.catalog) {s : State η} {answer : α}
    (hanswer : ((p engine).runAlone s).outcome = .ok answer) (hrefused : refused answer) :
    (p other).runAlone s = (p engine).runAlone s := by
  cases h with
  | runScript id context =>
    rw [runScript_of_refused hanswer hrefused other, runScript_of_refused hanswer hrefused engine]
  | executeWorkflow id context =>
    rw [executeWorkflow_of_refused hanswer hrefused other,
      executeWorkflow_of_refused hanswer hrefused engine]
  | addNode id templateId position =>
    simp only [Engine.addNode, hcatalog]
  | convertScript id =>
    simp only [Engine.convertScript, hcatalog]
  | _ => rfl

/-- A refused operation leaves the scripts and workflows, the executions and the handlers as they
are, and it counts an unknown template if that is why it was refused. It has not called a command
nor run a behaviour. The storage is as it was, but for tables that had not been saved as they
were. -/
theorem refused_unmoved {p : Engine η → Routine (State η) α} {refused : α → Prop}
    {counted : Engine η → UInt64} (h : Refusable p refused counted) (engine : Engine η)
    {s : State η} (hworks : s.Works s.storage) {answer : α}
    (hanswer : ((p engine).runAlone s).outcome = .ok answer) (hrefused : refused answer) :
    ((p engine).runAlone s).pauses = [] ∧
      Unmoved (counted engine) s ((p engine).runAlone s).state ∧
      (s.workflows.rows = Dict.empty ∨ s.workflows.Saved workflowFormat s.storage →
        ((p engine).runAlone s).state.storage = s.storage) ∧
      ∀ other : Engine η, other.catalog = engine.catalog →
        (p other).runAlone s = (p engine).runAlone s := by
  obtain ⟨hpauses, hunmoved⟩ := h.declines engine s hworks answer hanswer hrefused
  exact ⟨hpauses, hunmoved, hunmoved.storage_eq, fun other hcatalog =>
    h.heedless hcatalog hanswer hrefused⟩

namespace Haunted

open Session

def workflow : Workflow :=
  (Workflow.create ⟨7⟩ ⟨0, 0⟩ "haunted" .manual).addNode
    ⟨"n", "log", "n", Point.origin, .null, true⟩

def workflows : Table Workflow := ⟨"workflows", true, Dict.empty.insert ⟨7⟩ workflow⟩

/-- An engine that keeps one workflow in a folder, with one node. -/
def house : State Unit :=
  ⟨Lamp.world, Table.written workflowFormat workflows Storage.empty, ⟨"scripts", true, Dict.empty⟩,
    workflows, ExecutionLog.empty, 0⟩

def connection : Routine (State Unit) (Except EngineError Connection) :=
  (connect ⟨7⟩ "n" "ghost" none none).run

theorem works_house : house.Works house.storage := by
  have hflat : house.storage.Flat :=
    Table.flat_written ⟨rfl, fun _ hfile => nomatch hfile⟩ (by decide)
  exact ⟨fun _ => hflat.accepts _, fun _ => hflat.accepts _⟩

theorem outcome_connection : (connection.runAlone house).outcome =
    .ok (.error (.graph (.unknownNode "ghost" .target))) := by
  rfl

/-- A connection to a node that is not there changes nothing, in memory or in the folder. -/
theorem refused_unmoved_ghost :
    (connection.runAlone house).outcome = .ok (.error (.graph (.unknownNode "ghost" .target))) ∧
    Unmoved 0 house (connection.runAlone house).state ∧
    (connection.runAlone house).state.storage = house.storage := by
  have hrefusable : Refusable (fun _ : Engine Unit => connection) IsRefused fun _ => 0 :=
    .connect ⟨7⟩ "n" "ghost" none none
  have hsaved : house.workflows.Saved workflowFormat house.storage := fun _ => rfl
  obtain ⟨-, hunmoved, hstorage, -⟩ := refused_unmoved hrefusable Lamp.engine works_house
    outcome_connection ⟨_, rfl, nofun⟩
  exact ⟨outcome_connection, hunmoved, hstorage (Or.inr hsaved)⟩

end Haunted

end Engine
end Automation
