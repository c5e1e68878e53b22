import Automation.Proofs.Engine.Refusal
import Automation.Proofs.Engine.Reopen
import Automation.Proofs.Workflow.Converted

/-!
# Scripts and their diagnostics

The diagnostics of a script are kept beside its code and are brought up to date with every change of
the code, while whoever runs a script compiles it anew. Through all edits, and whenever the folder
is opened again, the two agree: what is kept is what a check of the code says. So the diagnostics
that are kept say which scripts are refused, and which are passed over by events and schedules.
-/
namespace Automation

/-- The diagnostics that are kept are those of the code. -/
def Script.Checked (script : Script) : Prop := script.diagnostics = Diagnostic.errorsOf script.code

namespace Script

theorem checked_create (id : Uuid) (now : Instant) (name code : String) :
    (create id now name code).Checked := rfl

theorem checked_setCode (script : Script) (code : String) : (script.setCode code).Checked := rfl

variable {script : Script}

/-- A script that was checked last is known to compile or not. -/
theorem Checked.any_isError_iff (h : script.Checked) :
    script.diagnostics.any Diagnostic.isError ↔ ∃ cause, script.program = .error cause := by
  rw [h, Diagnostic.errorsOf, program]
  cases Program.compile script.code with
  | ok program => simp
  | error cause => simp [Diagnostic.ofSyntaxError, Diagnostic.isError]

theorem Checked.isValid_iff (h : script.Checked) :
    script.isValid ↔ ∃ program, script.program = .ok program := by
  have hiff := h.any_isError_iff
  rw [isValid, Bool.not_eq_true', ← Bool.not_eq_true, hiff]
  cases script.program with
  | ok program => simp
  | error cause => simp

end Script

namespace Table

variable {α β : Type} {format : RowFormat α} {idOf : α → Uuid} {mayInsert : α → Prop}
  {mayBecome : α → α → Prop}

/-- Saving writes the file of a table, or leaves it as it is. -/
theorem file_save (format : RowFormat α) (result : β) (table : Table α) (storage : Storage) :
    (Table.save format result (table, storage)).2.2.files.get? (fileName table.name) =
        storage.files.get? (fileName table.name) ∨
      (Table.save format result (table, storage)).2.2.files.get? (fileName table.name) =
        some (fileText format table.rows) := by
  rw [Table.save]
  split
  · cases hwrite : storage.write (fileName table.name) (fileText format table.rows) with
    | ok after =>
      obtain ⟨-, rfl⟩ := Storage.eq_of_write hwrite
      exact Or.inr ((storage.files.get?_insert _ _ _).trans (if_pos rfl))
    | error cause => exact Or.inl rfl
  · exact Or.inl rfl

/-- A table is opened without rows, or with those that are read of its file. -/
theorem rows_of_load {name : String} {isPersistent : Bool} {storage : Storage} {table : Table α}
    (h : Table.load format name isPersistent storage = .ok table) :
    table.name = name ∧ (table.rows = Dict.empty ∨ ∃ text,
      storage.files.get? (fileName name) = some text ∧
        readRows format text = .ok table.rows) := by
  cases isPersistent with
  | false =>
    obtain rfl := Except.ok.inj h
    exact ⟨rfl, Or.inl rfl⟩
  | true =>
    rw [Table.load, if_pos rfl] at h
    obtain ⟨found, hfound, h⟩ := ok_of_bind h
    have hread := ok_of_mapError hfound
    rw [Storage.read] at hread
    split at hread
    · cases hread
    obtain rfl := Except.ok.inj hread
    cases htext : storage.files.get? (fileName name) with
    | none =>
      rw [htext] at h
      obtain rfl := Except.ok.inj h
      exact ⟨rfl, Or.inl rfl⟩
    | some text =>
      simp only [htext] at h
      obtain ⟨rows, hrows⟩ := ok_of_map h
      rw [hrows] at h
      obtain rfl := Except.ok.inj h
      exact ⟨rfl, Or.inr ⟨text, rfl, hrows⟩⟩

/-- A change of one row saves what it has made of the rows, if it makes anything. -/
theorem Edits.saves {before after : Table α × Storage}
    (h : Edits format idOf mayInsert mayBecome before after) :
    after = before ∨ ∃ rows, ∃ β, ∃ result : β,
      after = (Table.save format result ({ before.1 with rows }, before.2)).2 := by
  obtain ⟨table, storage⟩ := before
  cases h with
  | insert row h => exact Or.inr ⟨_, Unit, (), rfl⟩
  | update id change h =>
    cases hrow : table.rows.get? id with
    | none => exact Or.inl (congrArg Prod.snd (update_of_none format change storage hrow))
    | some row =>
      exact Or.inr ⟨_, _, _, congrArg Prod.snd (update_of_some format change storage hrow)⟩
  | delete id =>
    cases hrow : table.rows.get? id with
    | none => exact Or.inl (congrArg Prod.snd (delete_of_none format storage hrow))
    | some row => exact Or.inr ⟨_, _, _, congrArg Prod.snd (delete_of_some format storage hrow)⟩

/-- A change of one row leaves the file of the table as it is, or it writes the rows there. -/
theorem Edits.file {before after : Table α × Storage}
    (h : Edits format idOf mayInsert mayBecome before after) :
    after.1.name = before.1.name ∧
      (after.2.files.get? (fileName before.1.name) = before.2.files.get? (fileName before.1.name) ∨
        after.2.files.get? (fileName before.1.name) = some (fileText format after.1.rows)) := by
  rcases h.saves with rfl | ⟨rows, β, result, rfl⟩
  · exact ⟨rfl, Or.inl rfl⟩
  · rw [rows_save]
    exact ⟨rfl, file_save format result { before.1 with rows } before.2⟩

end Table

namespace Engine

open Routine

variable {η α : Type}

/-- The operations on the scripts that change them. -/
inductive ScriptOperation : ∀ {α : Type}, Routine (State η) α → Prop where
  | create (name code : String) : ScriptOperation (createScript name code).run
  | updateCode (id : Uuid) (code : String) : ScriptOperation (updateCode id code).run
  | rename (id : Uuid) (name : String) : ScriptOperation (renameScript id name).run
  | setEnabled (id : Uuid) (enabled : Bool) : ScriptOperation (setScriptEnabled id enabled).run
  | recordRun (id : Uuid) (time : Instant) : ScriptOperation (recordScriptRun id time).run
  | delete (id : Uuid) : ScriptOperation (deleteScript id).run

/-- A change of one script that leaves scripts checked. -/
abbrev Rechecks (before after : Table Script × Storage) : Prop :=
  Table.Edits scriptFormat Script.id Script.Checked (fun a b => a.Checked → b.Checked) before after

theorem rechecks_updateScript (id : Uuid) (change : Script → Script)
    (h : ∀ script : Script, script.Checked → (change script).Checked) (s : State η) :
    let t := ((updateScript id change : Operation η Script).run.runAlone s).state
    Rechecks (s.scripts, s.storage) (t.scripts, t.storage) :=
  .update id (fun script => (change script, change script)) h

/-- A run that crashes with its count changes nothing. -/
theorem runAlone_recordScriptRun (id : Uuid) (time : Instant) (s : State η) :
    ((recordScriptRun id time : Operation η Unit).run.runAlone s).state =
      countScript id time s := by
  rw [run_recordScriptRun, runAlone]
  split
  · rfl
  · rfl

/-- Each of them changes one script, and brings the diagnostics along with the code, or it changes
nothing at all. -/
theorem ScriptOperation.rechecks {p : Routine (State η) α} (h : ScriptOperation p) (s : State η) :
    (p.runAlone s).state = s ∨ Rechecks (s.scripts, s.storage)
      ((p.runAlone s).state.scripts, (p.runAlone s).state.storage) := by
  cases h with
  | create name code =>
    let script := Script.create s.takeId.1 s.takeId.2.now.1 name code
    exact Or.inr (.insert script (Script.checked_create _ _ _ _))
  | updateCode id code =>
    exact Or.inr (rechecks_updateScript id _ (fun script _ => script.checked_setCode code) s)
  | rename id name =>
    exact Or.inr (rechecks_updateScript id (fun script => { script with name }) (fun _ h => h) s)
  | setEnabled id enabled =>
    exact Or.inr <|
      rechecks_updateScript id (fun script => { script with enabled }) (fun _ h => h) s
  | recordRun id time =>
    rw [runAlone_recordScriptRun, countScript]
    split
    · exact Or.inl rfl
    · exact Or.inr (.update id (fun script : Script => ((), script.afterRun time)) fun _ h => h)
  | delete id => exact Or.inr (.delete id)

/-- The rows come back from the text of their file. -/
def State.RowsReadBack (s : State η) : Prop :=
  Table.readRows scriptFormat (Table.fileText scriptFormat s.scripts.rows) = .ok s.scripts.rows

/-- The states of an engine through edits of its scripts, which begins on a folder without scripts
and may be opened again and again. -/
inductive ScriptHistory (isPersistent : Bool) : State η → Prop where
  | opened {world : World η} {storage : Storage} {s : State η}
      (hnew : storage.files.get? (Table.fileName "scripts") = none)
      (h : State.load world storage isPersistent = .ok s) : ScriptHistory isPersistent s
  | edited {s : State η} {α : Type} {p : Routine (State η) α} (hs : ScriptHistory isPersistent s)
      (h : ScriptOperation p) (hreads : (p.runAlone s).state.RowsReadBack) :
      ScriptHistory isPersistent (p.runAlone s).state
  | reopened {s t : State η} {world : World η} (hs : ScriptHistory isPersistent s)
      (h : State.load world s.storage isPersistent = .ok t) : ScriptHistory isPersistent t
  /-- What others do has no part in the scripts, but the folder may be deleted. -/
  | meanwhile {s t : State η} (hs : ScriptHistory isPersistent s) (h : t.scripts = s.scripts)
      (hfile : t.storage.files.get? (Table.fileName "scripts") =
          s.storage.files.get? (Table.fileName "scripts") ∨
        t.storage.files.get? (Table.fileName "scripts") = none) : ScriptHistory isPersistent t

/-- All scripts are checked, and so are those that can be read of the file. -/
structure State.Checked (s : State η) : Prop where
  named : s.scripts.name = "scripts"
  rows : ∀ key script, s.scripts.rows.get? key = some script → script.Checked
  file : ∀ text rows, s.storage.files.get? (Table.fileName "scripts") = some text →
    Table.readRows scriptFormat text = .ok rows →
      ∀ key script, rows.get? key = some script → script.Checked

namespace State.Checked

variable {s t : State η} {isPersistent : Bool}

theorem edited (hs : s.Checked)
    (h : Rechecks (s.scripts, s.storage) (t.scripts, t.storage)) (hreads : t.RowsReadBack) :
    t.Checked := by
  obtain ⟨hname, hfile⟩ := h.file
  have hrows : ∀ key script, t.scripts.rows.get? key = some script → script.Checked := by
    intro key script hrow
    rcases h.get?_eq_some hrow with hsame | ⟨-, hnew⟩ | ⟨old, hold, hbecomes⟩
    · exact hs.rows key script hsame
    · exact hnew
    · exact hbecomes (hs.rows key old hold)
  dsimp only at hname hfile
  rw [hs.named] at hname hfile
  refine ⟨hname, hrows, fun text rows htext hread => ?_⟩
  rcases hfile with hsame | hwritten
  · exact hs.file text rows (hsame.symm.trans htext) hread
  · rw [hwritten] at htext
    obtain rfl := Option.some.inj htext
    obtain rfl := Except.ok.inj (hread.symm.trans hreads)
    exact hrows

/-- Whatever is opened is what was read of the file. -/
theorem loaded {storage : Storage} {world : World η}
    (hfile : ∀ text rows, storage.files.get? (Table.fileName "scripts") = some text →
      Table.readRows scriptFormat text = .ok rows →
        ∀ key script, rows.get? key = some script → script.Checked)
    (h : State.load world storage isPersistent = .ok t) : t.Checked := by
  rw [State.load] at h
  obtain ⟨scripts, hload, h⟩ := ok_of_bind h
  obtain ⟨workflows, -, h⟩ := ok_of_bind h
  obtain rfl := Except.ok.inj h
  obtain ⟨hname, hrows⟩ := Table.rows_of_load (ok_of_mapError hload)
  refine ⟨hname, fun key script hrow => ?_, hfile⟩
  rcases hrows with hempty | ⟨text, htext, hread⟩
  · dsimp only at hrow
    rw [hempty] at hrow
    cases hrow
  · exact hfile text _ htext hread key script hrow

theorem of_history (h : ScriptHistory isPersistent s) : s.Checked := by
  induction h with
  | opened hnew h =>
    refine loaded (fun text rows htext => ?_) h
    rw [hnew] at htext
    cases htext
  | edited hs h hreads ih =>
    rcases h.rechecks _ with hsame | hrechecks
    · rwa [hsame]
    · exact ih.edited hrechecks hreads
  | reopened hs h ih => exact loaded ih.file h
  | meanwhile hs h hfile ih =>
    refine ⟨h ▸ ih.named, h ▸ ih.rows, fun text rows htext => ?_⟩
    rcases hfile with hsame | hgone
    · exact ih.file text rows (hsame.symm.trans htext)
    · rw [hgone] at htext
      cases htext

end State.Checked

section Consumers

variable {engine : Engine η} {s : State η} {key : Uuid} {script : Script}

theorem refused_by_runScript_iff (hrow : s.scripts.rows.get? key = some script)
    (context : Context) :
    (∃ cause, ((engine.runScript key context).run.runAlone s).outcome =
      .ok (.error (.uncompiled cause))) ↔ ∃ cause, script.program = .error cause := by
  constructor
  · rintro ⟨cause, houtcome⟩
    rcases first_look_of_runScript houtcome ⟨_, rfl, nofun⟩ with
      ⟨hnone, -⟩ | ⟨found, cause, hfound, hprogram, -⟩
    · rw [hrow] at hnone
      cases hnone
    · rw [hrow] at hfound
      obtain rfl := Option.some.inj hfound
      exact ⟨cause, hprogram⟩
  · rintro ⟨cause, hprogram⟩
    exact ⟨cause, congrArg Ending.outcome (runScript_of_uncompiled hrow hprogram)⟩

/-- The workflow that a script becomes, with the identifiers that it takes. -/
def built (engine : Engine η) (script : Script) (s : State η) :
    Except EngineError Workflow × State η :=
  match Workflow.ofScript script engine.catalog s.now.1 s.now.2.world.ids with
  | .ok (w, ids) => (.ok w, { s.now.2 with world := { s.now.2.world with ids } })
  | .error e => (.error e, s.now.2)

/-- What the conversion of a script answers. -/
theorem outcome_convertScript (hrow : s.scripts.rows.get? key = some script) :
    ((engine.convertScript key).run.runAlone s).outcome =
      match Workflow.ofScript script engine.catalog s.now.1 s.now.2.world.ids with
      | .error e => .ok (.error e)
      | .ok (w, ids) =>
        ((insertWorkflow w).run.runAlone
          { s.now.2 with world := { s.now.2.world with ids } }).outcome := by
  have hget : s.scripts.get key = .ok script := by rw [Table.get, hrow]
  have hrun : ((engine.convertScript key).run.runAlone s).outcome =
      (runAlone (ExceptT.bindCont insertWorkflow (built engine script s).1)
        (built engine script s).2).outcome := by
    change (runAlone (ExceptT.bindCont _ ((s.scripts.get key).mapError _)) s).outcome = _
    rw [hget]
    rfl
  rw [hrun, built]
  cases Workflow.ofScript script engine.catalog s.now.1 s.now.2.world.ids with
  | error e => rfl
  | ok pair => rfl

/-- Storing a workflow has nothing to do with scripts. -/
theorem outcome_insertWorkflow_ne (w : Workflow) (cause : SyntaxError) :
    ((insertWorkflow w).run.runAlone s).outcome ≠ .ok (.error (.uncompiled cause)) := by
  intro h
  have hanswer : ((s.changeWorkflows (Table.insert workflowFormat w.id w)).1.map
      fun () => w).mapError EngineError.database = .error (.uncompiled cause) := Except.ok.inj h
  generalize (s.changeWorkflows (Table.insert workflowFormat w.id w)).1 = result at hanswer
  cases result with
  | ok _ => cases hanswer
  | error e => cases hanswer

theorem refused_by_convertScript_iff (hrow : s.scripts.rows.get? key = some script) :
    (∃ cause, ((engine.convertScript key).run.runAlone s).outcome =
      .ok (.error (.uncompiled cause))) ↔ ∃ cause, script.program = .error cause := by
  rw [outcome_convertScript hrow]
  cases hmade : Workflow.ofScript script engine.catalog s.now.1 s.now.2.world.ids with
  | error e =>
    obtain ⟨cause, rfl, hcause⟩ := Workflow.ofScript_eq_error_iff.mp hmade
    exact iff_of_true ⟨cause, rfl⟩ ⟨cause, hcause⟩
  | ok made =>
    refine iff_of_false (fun ⟨cause, h⟩ => outcome_insertWorkflow_ne made.1 cause h) ?_
    rintro ⟨cause, hcause⟩
    rw [Workflow.ofScript_eq_error_iff.mpr ⟨cause, rfl, hcause⟩] at hmade
    cases hmade

end Consumers

/-- There is no program to look for rules in, so nothing of the script fits any trigger and nothing
of it is announced. -/
structure Unheard (script : Script) : Prop where
  stuck : ∃ cause, script.program = .error cause
  rules : ∀ fits, fittingRules fits script = []
  schedules : scriptSchedules script = []

/-- Events and schedules look through all rules of the script. -/
structure Heard (script : Script) (program : Program) : Prop where
  compiles : script.program = .ok program
  rules : ∀ fits, fittingRules fits script =
    program.rules.zipIdx.filter fun (rule, _) => fits rule.trigger
  schedules : scriptSchedules script = program.rules.zipIdx.filterMap fun (rule, index) =>
    rule.trigger.scheduleExpression?.map fun expression => ⟨.script script.id index, expression⟩

theorem unheard_of_error {script : Script} {cause : SyntaxError}
    (h : script.program = .error cause) :
    Unheard script := by
  refine ⟨⟨cause, h⟩, fun fits => ?_, ?_⟩
  · cases henabled : script.enabled with
    | true => simp only [fittingRules, henabled, h]
    | false => simp only [fittingRules, henabled]
  · cases henabled : script.enabled with
    | true => simp only [scriptSchedules, henabled, h]
    | false => simp only [scriptSchedules, henabled]

theorem heard_of_ok {script : Script} {program : Program} (he : script.enabled)
    (h : script.program = .ok program) : Heard script program := by
  refine ⟨h, fun fits => ?_, ?_⟩
  · simp only [fittingRules, he, h]
  · simp only [scriptSchedules, he, h]

/-- What the kept diagnostics of a stored script say of it. -/
structure Diagnosed (engine : Engine η) (s : State η) (key : Uuid) (script : Script) : Prop where
  diagnostics : script.diagnostics = Diagnostic.errorsOf script.code
  isValid_iff : script.isValid ↔ ∃ program, Program.compile script.code = .ok program
  runScript_iff : ∀ context, (∃ cause, ((engine.runScript key context).run.runAlone s).outcome =
    .ok (.error (.uncompiled cause))) ↔ script.diagnostics.any Diagnostic.isError
  convertScript_iff : (∃ cause, ((engine.convertScript key).run.runAlone s).outcome =
    .ok (.error (.uncompiled cause))) ↔ script.diagnostics.any Diagnostic.isError
  unheard_iff : Unheard script ↔ script.diagnostics.any Diagnostic.isError
  heard_iff : script.enabled →
    ((∃ program, Heard script program) ↔ ¬ script.diagnostics.any Diagnostic.isError)

theorem Diagnosed.of_checked {script : Script} (h : script.Checked) (engine : Engine η)
    {s : State η} {key : Uuid} (hrow : s.scripts.rows.get? key = some script) :
    Diagnosed engine s key script where
  diagnostics := h
  isValid_iff := h.isValid_iff
  runScript_iff context := (refused_by_runScript_iff hrow context).trans h.any_isError_iff.symm
  convertScript_iff := (refused_by_convertScript_iff hrow).trans h.any_isError_iff.symm
  unheard_iff := by
    rw [h.any_isError_iff]
    exact ⟨Unheard.stuck, fun ⟨_, hprogram⟩ => unheard_of_error hprogram⟩
  heard_iff henabled := by
    rw [h.any_isError_iff]
    constructor
    · rintro ⟨program, hheard⟩ ⟨cause, hcause⟩
      rw [hheard.compiles] at hcause
      cases hcause
    · intro hnot
      cases hprogram : script.program with
      | ok program => exact ⟨program, heard_of_ok henabled hprogram⟩
      | error cause => exact absurd ⟨cause, hprogram⟩ hnot

/-- Whatever has been done to the scripts and however often the folder was opened again: what is
kept of the diagnostics of a script is what a check of its code says, and so it says whether the
script is refused, and whether it is passed over because there is no program. -/
theorem stored_diagnosed {isPersistent : Bool} {s : State η} (h : ScriptHistory isPersistent s)
    (engine : Engine η) {key : Uuid} {script : Script}
    (hrow : s.scripts.rows.get? key = some script) : Diagnosed engine s key script :=
  .of_checked ((State.Checked.of_history h).rows key script hrow) engine hrow

namespace Stub

open Session

/-- An engine that has been opened on an empty folder. -/
def opened : State Unit :=
  ⟨Lamp.world, Storage.empty, ⟨"scripts", true, Dict.empty⟩, ⟨"workflows", true, Dict.empty⟩,
    ExecutionLog.empty, 0⟩

/-- A script that stops after its first word. -/
def stub : Script := Script.create ⟨0⟩ ⟨0, 0⟩ "stub" "on"

def creation : Routine (State Unit) (Except EngineError Script) := (createScript "stub" "on").run

def made : State Unit := (creation.runAlone opened).state

theorem get?_made {key : Uuid} {script : Script} (h : made.scripts.rows.get? key = some script) :
    script = stub := by
  have hmem := Dict.get?_eq_some_iff.mp h
  have hentries : made.scripts.rows.entries = [(⟨0⟩, stub)] := rfl
  rw [hentries] at hmem
  exact (Prod.mk.inj (List.mem_singleton.mp hmem)).2

theorem readsBack_stub : stub.ReadsBack where
  createdAt := by decide +kernel
  lastRun _ ht := nomatch ht
  diagnostics :=
    show ∀ d ∈ stub.diagnostics, d.line < 2 ^ 64 ∧ d.column < 2 ^ 64 by decide +kernel

theorem readsBack_made : made.ReadsBack := by
  refine ⟨fun key script h => ?_, fun key w h => nomatch h⟩
  rw [get?_made h]
  exact readsBack_stub

/-- The folder holds the script, and it is opened again. -/
theorem load_made : State.load Lamp.world made.storage true =
    .ok ⟨Lamp.world, made.storage, made.scripts, made.workflows, ExecutionLog.empty, 0⟩ := by
  have hedit : Edit opened made := .script (.insert stub trivial) rfl
  have hkept : made.Kept := hedit.kept (State.kept_of_load_empty rfl)
  exact hkept.load readsBack_made (fun _ _ h => nomatch h) Lamp.world

theorem history_reopened : ScriptHistory true
    (⟨Lamp.world, made.storage, made.scripts, made.workflows, ExecutionLog.empty, 0⟩ :
      State Unit) := by
  have hreads : made.RowsReadBack := Table.readRows_fileText fun entry hentry =>
    (readsBack_made.returns_scripts entry hentry).rereads <|
      Nat.lt_of_le_of_lt (Nat.succ_le_succ entry.2.depth_toJson_le) (by decide)
  have hopened : ScriptHistory true opened :=
    @ScriptHistory.opened _ true Lamp.world Storage.empty opened rfl rfl
  exact .reopened (.edited hopened (.create "stub" "on") hreads) load_made

/-- After the folder was opened again the script is still known not to compile, and it is
refused. -/
theorem stored_diagnosed_stub : ∃ s : State Unit, ScriptHistory true s ∧
    s.scripts.rows.get? ⟨0⟩ = some stub ∧ Diagnosed Lamp.engine s ⟨0⟩ stub ∧ ¬ stub.isValid ∧
      ∃ cause, ((Lamp.engine.runScript ⟨0⟩ Dict.empty).run.runAlone s).outcome =
        .ok (.error (.uncompiled cause)) := by
  have hdiagnosed := stored_diagnosed history_reopened Lamp.engine
    (show made.scripts.rows.get? ⟨0⟩ = some stub from rfl)
  have hinvalid : stub.diagnostics.any Diagnostic.isError := by decide +kernel
  refine ⟨_, history_reopened, rfl, hdiagnosed, ?_, (hdiagnosed.runScript_iff _).mpr hinvalid⟩
  rw [Script.isValid, hinvalid]
  decide

end Stub

end Engine
end Automation
