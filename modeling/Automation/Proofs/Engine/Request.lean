import Automation.Proofs.Engine.Commits
import Automation.Proofs.Table
import Automation.Proofs.Workflow.Edit
import Mathlib.Logic.Relation

/-!
# What clients ask for

A request is anything that a client can ask of an engine that may change its tables. Any number of
requests are under way side by side, each a step at a time; that is a session. Whatever the requests
are and however they take turns, each step of a session changes at most one row, and rows stay under
their own identifiers.
-/
namespace Automation.Engine

open Routine

variable {η α β : Type}

inductive Request where
  | createScript (name code : String)
  | updateCode (id : Uuid) (code : String)
  | renameScript (id : Uuid) (name : String)
  | setScriptEnabled (id : Uuid) (enabled : Bool)
  | deleteScript (id : Uuid)
  | runScript (id : Uuid) (context : Context)
  /-- One rule of a script, as an event or a schedule sets it off. -/
  | runRule (id : Uuid) (index : Nat) (rule : Rule) (context : Context)
  | convertScript (id : Uuid)
  | createWorkflow (name : String) (description : Option String) (trigger : Trigger)
  | importWorkflow (text : String)
  | duplicateWorkflow (id : Uuid)
  | updateWorkflow (id : Uuid) (patch : Workflow.Patch)
  | addNode (id : Uuid) (templateId : String) (position : Point)
  | updateNode (id : Uuid) (nodeId : String) (patch : Node.Patch)
  | removeNode (id : Uuid) (nodeId : String)
  | connect (id : Uuid) (source target : String) (sourceHandle targetHandle : Option String)
  | disconnect (id : Uuid) (connectionId : String)
  | setVariable (id : Uuid) (name : String) (value : Json)
  | executeWorkflow (id : Uuid) (context : Context)
  /-- A workflow, as an event or a schedule sets it off. -/
  | runWorkflow (id : Uuid) (context : Context)
  | deleteWorkflow (id : Uuid)

/-- An operation of which only its success is told. -/
def succeeds (operation : Operation η α) : Routine (State η) Bool := do
  return (← operation.run).toBool

/-- Whether there was anything to run. -/
def Result.ran : Result → Bool
  | .nothing => false
  | .script _ | .workflow _ => true

/-- A task of which it is told whether there was anything to run. -/
def answers (task : Routine (State η) Result) : Routine (State η) Bool := do
  return (← task).ran

namespace Request

/-- Does what is asked for and tells whether that succeeded. -/
def run (engine : Engine η) : Request → Routine (State η) Bool
  | createScript name code => succeeds (Engine.createScript name code)
  | updateCode id code => succeeds (Engine.updateCode id code)
  | renameScript id name => succeeds (Engine.renameScript id name)
  | setScriptEnabled id enabled => succeeds (Engine.setScriptEnabled id enabled)
  | deleteScript id => succeeds (Engine.deleteScript id)
  | runScript id context => succeeds (engine.runScript id context)
  | runRule id index rule context => answers (engine.superviseRule id index rule context)
  | convertScript id => succeeds (engine.convertScript id)
  | createWorkflow name description trigger =>
    succeeds (Engine.createWorkflow name description trigger)
  | importWorkflow text => do return (← Engine.importWorkflow text).isSome
  | duplicateWorkflow id => succeeds (Engine.duplicateWorkflow id)
  | updateWorkflow id patch => succeeds (Engine.updateWorkflow id patch)
  | addNode id templateId position => succeeds (engine.addNode id templateId position)
  | updateNode id nodeId patch => succeeds (Engine.updateNode id nodeId patch)
  | removeNode id nodeId => succeeds (Engine.removeNode id nodeId)
  | connect id source target sourceHandle targetHandle =>
    succeeds (Engine.connect id source target sourceHandle targetHandle)
  | disconnect id connectionId => succeeds (Engine.disconnect id connectionId)
  | setVariable id name value => succeeds (Engine.setVariable id name value)
  | executeWorkflow id context => succeeds (engine.executeWorkflow id context)
  | runWorkflow id context => answers (engine.runWorkflow id context)
  | deleteWorkflow id => succeeds (Engine.deleteWorkflow id)

/-- The identifiers that a request may bring into a workflow. -/
def mentions : Request → List Uuid
  | addNode id _ _ => [id]
  | importWorkflow text =>
    ((importable? text).map fun w => w.nodeIds.filterMap Uuid.ofText?).getD []
  | _ => []

end Request

/-- What one commit can do to the tables and their files: one row changes, or none does. -/
inductive Edits (mayInsert : Workflow → Prop) (mayBecome : Workflow → Workflow → Prop)
    (s s' : State η) : Prop where
  | none (hs : s'.scripts = s.scripts) (hw : s'.workflows = s.workflows)
      (hf : s'.storage = s.storage)
  | script
      (h : Table.Edits scriptFormat Script.id (fun _ => True) (fun a b => b.id = a.id)
        (s.scripts, s.storage) (s'.scripts, s'.storage))
      (hw : s'.workflows = s.workflows)
  | workflow
      (h : Table.Edits workflowFormat Workflow.id mayInsert mayBecome
        (s.workflows, s.storage) (s'.workflows, s'.storage))
      (hs : s'.scripts = s.scripts)

/-- An edit that leaves identifiers alone. -/
abbrev Edit (s s' : State η) : Prop := Edits (fun _ => True) (fun w w' => w'.id = w.id) s s'

/-- An edit that brings in neither a workflow nor a node. -/
abbrev Tending (s s' : State η) : Prop := Edits (fun _ => False) Workflow.Tended s s'

theorem Tending.edit {s s' : State η} (h : Tending s s') : Edit s s' := by
  cases h with
  | none hs hw hf => exact .none hs hw hf
  | script h hw => exact .script h hw
  | workflow h hs => exact .workflow (h.mono (fun _ => False.elim) fun _ _ h => h.id) hs

/-- Every row of both tables is stored under its own identifier. -/
structure State.Filed (s : State η) : Prop where
  scripts : s.scripts.Filed Script.id
  workflows : s.workflows.Filed Workflow.id

theorem State.filed_start (world : World η) : (State.start world).Filed := by
  constructor
  · intro key script h
    cases h
  · intro key w h
    cases h

theorem Edit.filed_scripts {s s' : State η} (h : Edit s s') (hs : s.scripts.Filed Script.id) :
    s'.scripts.Filed Script.id := by
  cases h with
  | none hscripts hw hf => exact hscripts ▸ hs
  | script h hw => exact h.filed (fun _ _ he => he) hs
  | workflow h hscripts => exact hscripts ▸ hs

theorem Edit.filed_workflows {s s' : State η} (h : Edit s s')
    (hs : s.workflows.Filed Workflow.id) : s'.workflows.Filed Workflow.id := by
  cases h with
  | none hscripts hw hf => exact hw ▸ hs
  | script h hw => exact hw ▸ hs
  | workflow h hscripts => exact h.filed (fun _ _ he => he) hs

/-- A commit that always makes such a change. -/
def Always (change : State η → State η → Prop) (update : State η → State η) : Prop :=
  ∀ s, change s (update s)

section Commits

variable {kind : (State η → State η) → Prop} {mayInsert : Workflow → Prop}
  {mayBecome : Workflow → Workflow → Prop}

theorem commits_succeeds {p : Operation η α} (h : Commits kind p.run) :
    Commits kind (succeeds p) :=
  h.bind fun _ => .done _

theorem edits_none {update : State η → State η} (h : ∀ s, (update s).scripts = s.scripts ∧
    (update s).workflows = s.workflows ∧ (update s).storage = s.storage) :
    Always (Edits mayInsert mayBecome) update :=
  fun s => .none (h s).1 (h s).2.1 (h s).2.2

theorem coversLog_edits :
    CoversLog (Always (Edits mayInsert mayBecome : State η → State η → Prop)) :=
  fun _ _ => edits_none fun _ => ⟨rfl, rfl, rfl⟩

theorem edits_read (view : State η → α) :
    Commits (Always (Edits mayInsert mayBecome)) (Routine.read view) :=
  commits_read coversLog_edits.world view

theorem edits_fresh (make : Uuid → Instant → α) :
    Commits (Always (Edits mayInsert mayBecome)) (fresh make : Operation η α).run :=
  .commit (edits_none fun _ => ⟨rfl, rfl, rfl⟩) fun _ => .done _

theorem edits_updateScript (id : Uuid) (change : Script → Script)
    (h : ∀ script, (change script).id = script.id) :
    Commits (Always (Edits mayInsert mayBecome))
      (updateScript id change : Operation η Script).run :=
  .commit (fun _ => .script (.update id (fun script => (change script, change script)) h) rfl)
    fun _ => .done _

theorem edits_changeWorkflow (id : Uuid) {change : Workflow → β × Workflow}
    (h : ∀ w, mayBecome w (change w).2) :
    Commits (Always (Edits mayInsert mayBecome)) (changeWorkflow id change : Operation η β).run :=
  .commit (fun _ => .workflow (.update id change h) rfl) fun _ => .done _

theorem edits_insertWorkflow (w : Workflow) (h : mayInsert w) :
    Commits (Always (Edits mayInsert mayBecome)) (insertWorkflow w : Operation η Workflow).run :=
  .commit (fun _ => .workflow (.insert w h) rfl) fun _ => .done _

end Commits

section Tending

theorem tending_countScript (id : Uuid) (now : Instant) :
    Always Tending (countScript id now : State η → State η) := by
  let change (script : Script) : Unit × Script := ((), script.afterRun now)
  intro s
  rw [countScript]
  split
  · exact .none rfl rfl rfl
  · exact .script (.update id change fun _ => rfl) rfl

theorem tending_countWorkflow (id : Uuid) (now : Instant) (vars : Variables) :
    Always Tending (countWorkflow id now vars : State η → State η) := by
  let change (w : Workflow) : Unit × Workflow := ((), w.afterRun now vars)
  intro s
  rw [countWorkflow]
  split
  · exact .none rfl rfl rfl
  · exact .workflow (.update id change fun _ => .of_graph rfl rfl rfl) rfl

/-- A change of one node of a workflow, which fails if there is no such node. -/
theorem tending_changeNode (id : Uuid) (nodeId : String)
    {change : Workflow → Option (Node × Workflow)}
    (h : ∀ w pair, change w = some pair → Workflow.Tended w pair.2) :
    Commits (Always Tending) (do
      let node ← changeWorkflow id fun w => onNode (change w) w
      orNodeNotFound id nodeId node : Operation η Node).run := by
  refine commits_bind (edits_changeWorkflow id fun w => ?_) fun node => ?_
  · cases hc : change w with
    | none => exact .refl w
    | some pair => exact h w pair hc
  · cases node with
    | none => exact .done _
    | some node => exact .done _

theorem tending_connect (id : Uuid) (source target : String)
    (sourceHandle targetHandle : Option String) :
    Commits (Always Tending)
      (connect id source target sourceHandle targetHandle : Operation η Connection).run := by
  refine commits_bind (edits_fresh _) fun connection => ?_
  refine commits_bind (edits_changeWorkflow id fun w => ?_) fun result => ?_
  · cases hc : w.connect connection with
    | ok changed => exact Workflow.tended_connect hc
    | error e => exact .refl w
  · cases result with
    | ok connection => exact .done _
    | error e => exact .done _

/-- A template that nobody knows adds nothing. -/
theorem tending_addNode (engine : Engine η) (id : Uuid) {templateId : String} (position : Point)
    (h : engine.catalog.get? templateId = none) :
    Commits (Always Tending) (engine.addNode id templateId position).run := by
  unfold addNode
  rw [h]
  refine commits_bind ?_ fun _ => commits_bind (edits_read _) fun _ => .done _
  exact .commit (edits_none fun _ => ⟨rfl, rfl, rfl⟩) fun _ => .done _

/-- Whether a request can bring in a workflow or a node. -/
def Request.bringsIn : Request → Bool
  | createWorkflow _ _ _ | importWorkflow _ | convertScript _ | duplicateWorkflow _
  | addNode _ _ _ => true
  | _ => false

/-- All other requests only tend what is there. -/
theorem tending_request (engine : Engine η) {r : Request} (h : r.bringsIn = false) :
    Commits (Always Tending) (r.run engine) := by
  cases r with
  | createScript name code =>
    exact commits_succeeds (.commit
      (fun _ => .script (.insert (Script.create _ _ name code) trivial) rfl) fun _ => .done _)
  | updateCode id code => exact commits_succeeds (edits_updateScript id _ fun _ => rfl)
  | renameScript id name => exact commits_succeeds (edits_updateScript id _ fun _ => rfl)
  | setScriptEnabled id enabled => exact commits_succeeds (edits_updateScript id _ fun _ => rfl)
  | deleteScript id =>
    exact commits_succeeds (.commit (fun _ => .script (.delete id) rfl) fun _ => .done _)
  | runScript id context =>
    exact commits_succeeds
      (commits_runScript coversLog_edits.world engine id context (tending_countScript id))
  | runRule id index rule context =>
    exact (commits_superviseRule coversLog_edits.world engine id context (tending_countScript id)
      index rule).bind fun _ => .done _
  | updateWorkflow id patch =>
    exact commits_succeeds (edits_changeWorkflow id fun _ => .of_graph rfl rfl rfl)
  | updateNode id nodeId patch =>
    exact commits_succeeds
      (tending_changeNode id nodeId fun _ _ h => Workflow.tended_updateNode h fun _ => rfl)
  | removeNode id nodeId =>
    exact commits_succeeds (tending_changeNode id nodeId fun _ _ => Workflow.tended_removeNode)
  | connect id source target sourceHandle targetHandle =>
    exact commits_succeeds (tending_connect id source target sourceHandle targetHandle)
  | disconnect id connectionId =>
    exact commits_succeeds (edits_changeWorkflow id fun w => w.tended_disconnect connectionId)
  | setVariable id name value =>
    exact commits_succeeds (edits_changeWorkflow id fun _ => .of_graph rfl rfl rfl)
  | executeWorkflow id context =>
    exact commits_succeeds
      (commits_executeWorkflow engine id context coversLog_edits (tending_countWorkflow id))
  | runWorkflow id context =>
    exact (commits_runWorkflow engine id context coversLog_edits
      (tending_countWorkflow id)).bind fun _ => .done _
  | deleteWorkflow id =>
    exact commits_succeeds (.commit (fun _ => .workflow (.delete id) rfl) fun _ => .done _)
  | createWorkflow | importWorkflow | convertScript | duplicateWorkflow | addNode => cases h

end Tending

/-- Whatever is asked for, one commit changes one row at most. -/
theorem edit_request (engine : Engine η) (r : Request) : Commits (Always Edit) (r.run engine) := by
  have hstore : ∀ {p : Operation η Workflow}, Commits (Always Edit) p.run →
      Commits (Always Edit) (p >>= insertWorkflow).run :=
    fun h => commits_bind h fun w => edits_insertWorkflow w trivial
  by_cases h : r.bringsIn
  · cases r with
    | createWorkflow name description trigger => exact commits_succeeds (hstore (edits_fresh _))
    | importWorkflow text =>
      refine Commits.bind ?_ fun _ => .done _
      unfold Engine.importWorkflow
      cases importable? text with
      | none => exact .done _
      | some w => exact (hstore (edits_fresh _)).bind fun _ => .done _
    | convertScript id =>
      refine commits_succeeds (commits_bind (edits_read _) fun script => hstore ?_)
      refine .commit (edits_none fun s => ?_) fun _ => .done _
      dsimp only
      split
      · exact ⟨rfl, rfl, rfl⟩
      · exact ⟨rfl, rfl, rfl⟩
    | duplicateWorkflow id =>
      exact commits_succeeds (commits_bind (edits_read _) fun w => hstore (edits_fresh _))
    | addNode id templateId position =>
      refine commits_succeeds ?_
      cases h : engine.catalog.get? templateId with
      | none => exact (tending_addNode engine id position h).mono fun _ hk s => (hk s).edit
      | some template =>
        unfold Engine.addNode
        rw [h]
        exact commits_bind (edits_fresh _) fun node =>
          commits_bind (edits_changeWorkflow id fun _ => rfl) fun _ => .done _
    | _ => cases h
  · exact (tending_request engine (Bool.not_eq_true _ ▸ h)).mono fun _ hk s => (hk s).edit

/-- The identifiers that a step takes from the supply. -/
def taken (s s' : State η) : List Uuid :=
  (s.world.ids.takeMany (s'.world.ids.used - s.world.ids.used)).1

/-- An engine at work: its state, what is left of each call, and the identifiers that have been
taken from the supply or mentioned so far. -/
structure Session (η : Type) where
  state : State η
  calls : List (Routine (State η) Bool)
  known : List Uuid

namespace Session

/-- An engine of which nothing has been asked yet. -/
def start (s : State η) : Session η := ⟨s, [], []⟩

/-- A request comes in, or one of the calls does a step, or something is done to the state that
leaves the tables and their files alone. -/
inductive Step (engine : Engine η) : Session η → Session η → Prop where
  | call {t : Session η} (r : Request) :
      Step engine t
        { t with calls := t.calls ++ [r.run engine], known := t.known ++ r.mentions }
  | turn {t : Session η} {i : Nat} {p q : Routine (State η) Bool} {s : State η}
      (hi : t.calls[i]? = some p) (hs : p.Step t.state q s) :
      Step engine t ⟨s, t.calls.set i q, t.known ++ taken t.state s⟩
  | meanwhile {t : Session η} {s : State η} (hs : s.scripts = t.state.scripts)
      (hw : s.workflows = t.state.workflows) (hf : s.storage = t.state.storage) :
      Step engine t { t with state := s, known := t.known ++ taken t.state s }

/-- What can come of an engine of which nothing has been asked yet. -/
def Reaches (engine : Engine η) (s : State η) (t : Session η) : Prop :=
  Relation.ReflTransGen (Step engine) (start s) t

/-- The calls edit one row at a time, and so far that has kept something. -/
structure Orderly (inv : State η → Prop) (t : Session η) : Prop where
  calls : ∀ call ∈ t.calls, Commits (Always Edit) call
  state : inv t.state

variable {engine : Engine η} {inv : State η → Prop} {t next : Session η} {s : State η}

theorem Step.orderly (hinv : ∀ s s' : State η, Edit s s' → inv s → inv s')
    (h : Step engine t next) (ht : t.Orderly inv) : next.Orderly inv := by
  cases h with
  | call r =>
    constructor
    · intro call hmem
      rcases List.mem_append.mp hmem with hmem | hmem
      · exact ht.calls call hmem
      · rw [List.mem_singleton.mp hmem]
        exact edit_request engine r
    · exact ht.state
  | @turn i p q s hi hs =>
    obtain ⟨hq, hstate⟩ := (ht.calls p (List.mem_of_getElem? hi)).step hs
    constructor
    · intro call hmem
      rcases List.mem_or_eq_of_mem_set hmem with hmem | rfl
      · exact ht.calls call hmem
      · exact hq
    · rcases hstate with rfl | ⟨update, hupdate, rfl⟩
      · exact ht.state
      · exact hinv _ _ (hupdate t.state) ht.state
  | meanwhile hs hw hf => exact ⟨ht.calls, hinv _ _ (.none hs hw hf) ht.state⟩

/-- What one edit keeps a whole session keeps. -/
theorem Reaches.keeps (hinv : ∀ s s' : State η, Edit s s' → inv s → inv s') (hs : inv s)
    (h : Reaches engine s t) : inv t.state := by
  have horderly : t.Orderly inv := by
    induction h with
    | refl => exact ⟨List.forall_mem_nil _, hs⟩
    | tail _ hstep ih => exact hstep.orderly hinv ih
  exact horderly.state

/-- Rows stay under their own identifiers. -/
theorem Reaches.filed (hs : s.Filed) (h : Reaches engine s t) : t.state.Filed :=
  ⟨h.keeps (fun _ _ hedit => hedit.filed_scripts) hs.scripts,
    h.keeps (fun _ _ hedit => hedit.filed_workflows) hs.workflows⟩

end Session

end Automation.Engine
