import Automation.Proofs.Engine.Request
import Automation.Proofs.Uuid
import Automation.Proofs.Workflow.Order
import Automation.Proofs.Workflow.Row
import Mathlib.Data.List.Perm.Basic

/-!
# The graphs of the stored workflows

Whatever is asked of an engine that starts without workflows, and however the calls take turns, all
of its workflows have sound graphs, so long as every identifier that is taken is a fresh one. Most
calls only tend the graphs. The others bring something in: a node for a workflow, or a graph to be
stored. Between the commit that takes the identifiers and the one that uses them anything may happen
to the tables, so what a call has yet to bring in is part of the invariant: it has to go together
with what is stored, and with what the other calls are about to bring in.
-/
namespace Automation.Engine

open Routine

variable {η α β : Type}

/-- What a call has yet to bring into the workflows. -/
inductive Due where
  | nothing
  /-- A node of a workflow, under an identifier that is not known yet. -/
  | node (id : Uuid)
  /-- A node of a workflow, under an identifier of its own. -/
  | named (id nodeId : Uuid)
  /-- The workflow that a script becomes. -/
  | conversion
  /-- A copy of a workflow that has yet to be looked up. -/
  | copy
  /-- The graph of a workflow, under a new identifier. -/
  | graph (w : Workflow)
  /-- A workflow as it is. -/
  | insert (w : Workflow)

/-- What one commit of a call does to the workflows, and what is due before and after it. -/
inductive Move (s s' : State η) : Due → Due → Prop where
  | tend {due : Due} (h : Tending s s') : Move s s' due due
  | name {id nodeId : Uuid} (hw : s'.workflows = s.workflows) (hnew : nodeId ∈ taken s s') :
      Move s s' (.node id) (.named id nodeId)
  | add {id nodeId : Uuid} {node : Node} (hnode : node.id = nodeId.text)
      (hrows : ∀ key, s'.workflows.rows.get? key =
        if id = key then (s.workflows.rows.get? key).map fun w => w.addNode node
        else s.workflows.rows.get? key) :
      Move s s' (.named id nodeId) .nothing
  | look {id : Uuid} {w : Workflow} (hw : s'.workflows = s.workflows)
      (hrow : s.workflows.rows.get? id = some w) : Move s s' .copy (.graph w)
  | identify {w w' : Workflow} (hw : s'.workflows = s.workflows) (hnew : w'.id ∈ taken s s')
      (hn : w'.nodeIds = w.nodeIds) (hc : w'.connections = w.connections) :
      Move s s' (.graph w) (.insert w')
  | convert {w : Workflow} (hw : s'.workflows = s.workflows) (hnew : w.id ∈ taken s s')
      (hsound : (taken s s').Nodup → w.IsSound)
      (hids : ∀ id : Uuid, id.text ∈ w.nodeIds → id ∈ taken s s') :
      Move s s' .conversion (.insert w)
  | insert {w : Workflow}
      (hrows : ∀ key, s'.workflows.rows.get? key =
        if w.id = key then some w else s.workflows.rows.get? key) :
      Move s s' (.insert w) .nothing

/-- All that a routine does to the workflows is to bring in what is due. -/
inductive Conforms : Due → Routine (State η) α → Prop where
  | done {due : Due} (a : α) : Conforms due (.done a)
  | crash {due : Due} (message : String) : Conforms due (.crash message)
  | commit {due : Due} {update : State η → State η} {next : State η → Routine (State η) α}
      (after : State η → Due) (hm : ∀ s, Move s (update s) due (after s))
      (hn : ∀ s, Conforms (after s) (next s)) : Conforms due (.commit update next)
  | pause {due : Due} {length : Duration} {next : Routine (State η) α} (h : Conforms due next) :
      Conforms due (.pause length next)

section Conforms

theorem conforms_of_commits {p : Routine (State η) α} {due : Due}
    (h : Commits (Always Tending) p) : Conforms due p := by
  induction h with
  | done a => exact .done a
  | crash message => exact .crash message
  | commit hk hn ih => exact .commit (fun _ => due) (fun s => .tend (hk s)) ih
  | pause h ih => exact .pause ih

theorem taken_one {s s' : State η} (h : s'.world.ids = s.world.ids.take.2) :
    taken s s' = [s.world.ids.take.1] := by
  rw [taken, h]
  show (s.world.ids.takeMany (s.world.ids.used + 1 - s.world.ids.used)).1 = _
  rw [Nat.add_sub_cancel_left]
  rfl

/-- The last commit of a call that stores a workflow. -/
theorem conforms_insertWorkflow (w : Workflow) (f : Except EngineError Workflow → α) :
    Conforms (.insert w) (do return f (← (insertWorkflow w : Operation η Workflow).run)) :=
  .commit (fun _ => .nothing)
    (fun s => .insert fun key =>
      Table.get?_rows_insert workflowFormat w.id key w s.workflows s.storage)
    fun _ => .done _

/-- The last two commits of a call that stores a graph. -/
theorem conforms_fresh (w : Workflow) (make : Uuid → Instant → Workflow)
    (hmake : ∀ id now, (make id now).id = id ∧ (make id now).nodeIds = w.nodeIds ∧
      (make id now).connections = w.connections) (f : Except EngineError Workflow → α) :
    Conforms (.graph w)
      (do return f (← (fresh make >>= insertWorkflow : Operation η Workflow).run)) := by
  refine .commit (fun s => .insert (make s.world.ids.take.1 s.world.clock.take.1)) (fun s => ?_)
    fun s => conforms_insertWorkflow _ f
  obtain ⟨hid, hn, hc⟩ := hmake s.world.ids.take.1 s.world.clock.take.1
  refine .identify rfl ?_ hn hc
  rw [taken_one rfl, hid]
  exact List.mem_singleton_self _

/-- What a conversion takes from the supply, and what it makes of that. -/
theorem move_convert {s s' : State η} {name : String} {rules : List Rule} {catalog : Catalog}
    {now : Instant}
    (hids : s'.world.ids = (Workflow.converted name rules catalog now s.world.ids).2)
    (hw : s'.workflows = s.workflows) :
    Move s s' .conversion (.insert (Workflow.converted name rules catalog now s.world.ids).1) := by
  let count := (Workflow.firstMapped catalog rules).length
  have htaken : taken s s' = (s.world.ids.takeMany (count + 1 + (count - 1))).1 := by
    rw [taken, hids, Workflow.converted, Nat.add_sub_cancel_left]
  obtain ⟨more, hmore⟩ : ∃ more, count + 1 + (count - 1) = 2 * count + more :=
    ⟨count + 1 + (count - 1) - 2 * count, by omega⟩
  refine .convert hw ?_ (fun hnodup => ?_) fun id hid => ?_
  · rw [htaken, Nat.add_right_comm]
    exact List.mem_cons_self
  · rw [htaken, hmore] at hnodup
    exact (Workflow.isRow_converted name rules catalog now
      (Supply.Distinct.of_add hnodup)).isSound
  · rw [Workflow.nodeIds_converted, List.mem_map] at hid
    obtain ⟨nodeId, hmem, he⟩ := hid
    rw [← Uuid.text_injective he, htaken, hmore, Supply.takeMany_add]
    exact List.mem_append_left _ ((Workflow.rowIds_sublist s.world.ids count).mem hmem)

theorem conforms_convertScript (engine : Engine η) (id : Uuid) :
    Conforms .conversion (succeeds (engine.convertScript id)) := by
  refine .commit (fun _ => .conversion) (fun _ => .tend (.none rfl rfl rfl)) fun s => ?_
  show Conforms .conversion (Routine.bind (ExceptT.bindCont _ ((s.scripts.get id).mapError _)) _)
  cases s.scripts.get id with
  | error e => exact .done _
  | ok script =>
    -- the script is read once more when the identifiers are taken
    cases hprogram : script.program with
    | error e =>
      refine .commit (fun _ => .conversion) (fun s => ?_) fun s => ?_
      · simp only [Workflow.ofScript, hprogram]
        exact .tend (.none rfl rfl rfl)
      · simp only [Workflow.ofScript, hprogram]
        exact .done _
    | ok program =>
      refine .commit (fun s => .insert
        (Workflow.converted script.name program.rules engine.catalog s.now.1 s.world.ids).1)
        (fun s => ?_) fun s => ?_
      · simp only [Workflow.ofScript_eq hprogram]
        exact move_convert rfl rfl
      · simp only [Workflow.ofScript_eq hprogram]
        exact conforms_insertWorkflow _ _

theorem conforms_duplicateWorkflow (id : Uuid) :
    Conforms .copy (succeeds (duplicateWorkflow id : Operation η Workflow)) := by
  refine .commit (fun s => (s.workflows.rows.get? id).elim .copy .graph) (fun s => ?_) fun s => ?_
  · cases hrow : s.workflows.rows.get? id with
    | none => exact .tend (.none rfl rfl rfl)
    | some w => exact .look rfl hrow
  · cases hrow : s.workflows.rows.get? id with
    | none =>
      show Conforms .copy (Routine.bind (ExceptT.bindCont _ ((s.workflows.get id).mapError _)) _)
      rw [Table.get, hrow]
      exact .done _
    | some w =>
      show Conforms (.graph w)
        (Routine.bind (ExceptT.bindCont _ ((s.workflows.get id).mapError _)) _)
      rw [Table.get, hrow]
      exact conforms_fresh w w.copy (fun _ _ => ⟨rfl, rfl, rfl⟩) _

theorem conforms_addNode (engine : Engine η) (id : Uuid) {templateId : String}
    (position : Point) {template : Template} (h : engine.catalog.get? templateId = some template) :
    Conforms (.node id) (succeeds (engine.addNode id templateId position)) := by
  unfold addNode
  rw [h]
  refine .commit (fun s => .named id s.world.ids.take.1) (fun s => .name rfl ?_) fun s => ?_
  · rw [taken_one rfl]
    exact List.mem_singleton_self _
  · let node := Workflow.nodeOfTemplate s.world.ids.take.1 template position
    let change (w : Workflow) : Unit × Workflow := ((), w.addNode node)
    have hadd : ∀ s', Move s' ((changeWorkflow id change : Operation η Unit).run.runAlone s').state
        (.named id s.world.ids.take.1) .nothing := fun s' =>
      @Move.add _ _ _ _ _ node rfl fun key =>
        Table.get?_rows_update workflowFormat id key change s'.workflows s'.storage
    refine .commit (fun _ => .nothing) hadd fun s' => ?_
    let result := (s'.changeWorkflows (Table.update workflowFormat id change)).1
    show Conforms .nothing (Routine.bind (ExceptT.bindCont _ (result.mapError _)) _)
    cases result with
    | ok result => exact .done _
    | error e => exact .done _

/-- What a request has yet to bring in when it comes in. -/
def Request.due (engine : Engine η) : Request → Due
  | createWorkflow name _ trigger => .graph (Workflow.create default default name trigger)
  | importWorkflow text => match importable? text with
    | some w => .graph w
    | none => .nothing
  | convertScript _ => .conversion
  | duplicateWorkflow _ => .copy
  | addNode id templateId _ => match engine.catalog.get? templateId with
    | some _ => .node id
    | none => .nothing
  | _ => .nothing

theorem conforms_request (engine : Engine η) (r : Request) :
    Conforms (r.due engine) (r.run engine) := by
  by_cases h : r.bringsIn
  · cases r with
    | createWorkflow name description trigger =>
      exact conforms_fresh _
        (fun id now => { Workflow.create id now name trigger with description })
        (fun _ _ => ⟨rfl, rfl, rfl⟩) _
    | importWorkflow text =>
      show Conforms (match importable? text with
        | some w => .graph w
        | none => .nothing) (Routine.bind (Engine.importWorkflow text) fun w => .done w.isSome)
      unfold Engine.importWorkflow
      cases importable? text with
      | none => exact .done _
      | some w =>
        exact conforms_fresh w (fun id now => { w with id, createdAt := now })
          (fun _ _ => ⟨rfl, rfl, rfl⟩) fun result => result.toOption.isSome
    | convertScript id => exact conforms_convertScript engine id
    | duplicateWorkflow id => exact conforms_duplicateWorkflow id
    | addNode id templateId position =>
      show Conforms (match engine.catalog.get? templateId with
        | some _ => .node id
        | none => .nothing) (succeeds _)
      cases h : engine.catalog.get? templateId with
      | some template => exact conforms_addNode engine id position h
      | none => exact conforms_of_commits (commits_succeeds (tending_addNode engine id position h))
    | _ => cases h
  · have htending := tending_request engine (Bool.not_eq_true _ ▸ h)
    exact conforms_of_commits htending

end Conforms

/-- A sound graph whose nodes have no identifiers but known ones. -/
structure Proper (known : List Uuid) (w : Workflow) : Prop where
  sound : w.IsSound
  nodeIds : ∀ id : Uuid, id.text ∈ w.nodeIds → id ∈ known

/-- What is due goes together with what is stored. -/
def Due.Fits (known : List Uuid) (s : State η) : Due → Prop
  | nothing | conversion | copy => True
  | node id => id ∈ known
  | named id nodeId => id ∈ known ∧ nodeId ∈ known ∧
    ∀ w, s.workflows.rows.get? id = some w → nodeId.text ∉ w.nodeIds
  | graph w => Proper known w
  | insert w => w.id ∈ known ∧ Proper known w

/-- What is due of two calls goes together: a node is new to a workflow that is yet to be stored,
and no other new node has its identifier. -/
def Due.Apart : Due → Due → Prop
  | named _ nodeId, named _ other => nodeId ≠ other
  | named id nodeId, insert w => w.id = id → nodeId.text ∉ w.nodeIds
  | insert w, named id nodeId => w.id = id → nodeId.text ∉ w.nodeIds
  | _, _ => True

/-- All stored workflows are proper. -/
def State.Proper (known : List Uuid) (s : State η) : Prop :=
  ∀ key w, s.workflows.rows.get? key = some w → Engine.Proper known w

section Move

variable {known later : List Uuid} {s s' : State η} {due due' other : Due} {w : Workflow}

theorem Proper.mono (h : Proper known w) (hsub : known ⊆ later) : Proper later w :=
  ⟨h.sound, fun id hid => hsub (h.nodeIds id hid)⟩

theorem Proper.of_tended {w' : Workflow} (h : Proper known w) (ht : Workflow.Tended w w') :
    Proper known w' :=
  ⟨ht.isSound h.sound, fun id hid => h.nodeIds id (ht.nodeIds.subset hid)⟩

/-- Nothing but fresh identifiers is taken. -/
structure Fresh (known : List Uuid) (s s' : State η) : Prop where
  nodup : (taken s s').Nodup
  unknown : ∀ id ∈ taken s s', id ∉ known

/-- Where a workflow comes from that a tended store holds. -/
theorem Tending.get?_eq_some (h : Tending s s') {key : Uuid} {w' : Workflow}
    (hrow : s'.workflows.rows.get? key = some w') :
    ∃ w, s.workflows.rows.get? key = some w ∧ Workflow.Tended w w' := by
  cases h with
  | none hs hw hf => exact ⟨w', hw ▸ hrow, .refl w'⟩
  | script h hw => exact ⟨w', hw ▸ hrow, .refl w'⟩
  | workflow h hs =>
    rcases h.get?_eq_some hrow with hsame | ⟨-, hfalse⟩ | hold
    · exact ⟨w', hsame, .refl w'⟩
    · exact hfalse.elim
    · exact hold

/-- What is due still fits if no node has come in under the identifier that it brings in. -/
theorem Due.Fits.keep (h : due.Fits known s) (hsub : known ⊆ later)
    (hrows : ∀ id nodeId w', due = .named id nodeId → s'.workflows.rows.get? id = some w' →
      nodeId.text ∈ w'.nodeIds →
      ∃ w, s.workflows.rows.get? id = some w ∧ nodeId.text ∈ w.nodeIds) :
    due.Fits later s' := by
  cases due with
  | nothing | conversion | copy => trivial
  | node id => exact hsub h
  | named id nodeId =>
    obtain ⟨hid, hnode, hnew⟩ := h
    refine ⟨hsub hid, hsub hnode, fun w' hrow hmem => ?_⟩
    obtain ⟨w, hw, hold⟩ := hrows id nodeId w' rfl hrow hmem
    exact hnew w hw hold
  | graph w => exact Proper.mono h hsub
  | insert w => exact ⟨hsub h.1, h.2.mono hsub⟩

theorem Due.Fits.same (h : due.Fits known s) (hw : s'.workflows = s.workflows) :
    due.Fits (known ++ taken s s') s' :=
  h.keep (List.subset_append_left _ _) fun _ _ w' _ hrow hmem => ⟨w', hw ▸ hrow, hmem⟩

theorem Due.Fits.tend (h : due.Fits known s) (ht : Tending s s') :
    due.Fits (known ++ taken s s') s' := by
  refine h.keep (List.subset_append_left _ _) fun id nodeId w' _ hrow hmem => ?_
  obtain ⟨w, hold, htended⟩ := ht.get?_eq_some hrow
  exact ⟨w, hold, htended.nodeIds.subset hmem⟩

theorem State.Proper.same (h : s.Proper known) (hw : s'.workflows = s.workflows) :
    s'.Proper (known ++ taken s s') := fun key w hrow =>
  (h key w (hw ▸ hrow)).mono (List.subset_append_left _ _)

theorem mem_nodeIds_addNode {node : Node} {nodeId id : Uuid} (hnode : node.id = nodeId.text)
    (h : id.text ∈ (w.addNode node).nodeIds) : id.text ∈ w.nodeIds ∨ id = nodeId := by
  have hids : (w.addNode node).nodeIds = w.nodeIds ++ [node.id] := List.map_append
  rw [hids, hnode] at h
  exact (List.mem_append.mp h).imp_right fun h => Uuid.text_injective (List.mem_singleton.mp h)

/-- A commit leaves proper workflows. -/
theorem Move.proper (hm : Move s s' due due') (hs : s.Proper known) (hd : due.Fits known s) :
    s'.Proper (known ++ taken s s') := by
  have hsub : known ⊆ known ++ taken s s' := List.subset_append_left _ _
  cases hm with
  | tend h =>
    intro key w' hrow
    obtain ⟨w, hold, htended⟩ := h.get?_eq_some hrow
    exact ((hs key w hold).of_tended htended).mono hsub
  | name hw hnew => exact hs.same hw
  | @add id nodeId node hnode hrows =>
    obtain ⟨hid, hknown, hnew⟩ := hd
    intro key w' hrow
    rw [hrows] at hrow
    split at hrow
    · next hkey =>
      obtain ⟨w, hold, rfl⟩ := Option.map_eq_some_iff.mp hrow
      have hw := hs key w hold
      refine ⟨Workflow.isSound_addNode hw.sound ?_, fun other hother => ?_⟩
      · rw [hnode]
        exact hnew w (hkey ▸ hold)
      · rcases mem_nodeIds_addNode hnode hother with hmem | rfl
        · exact hsub (hw.nodeIds other hmem)
        · exact hsub hknown
    · exact (hs key w' hrow).mono hsub
  | look hw hrow => exact hs.same hw
  | identify hw hnew hn hc => exact hs.same hw
  | convert hw hnew hsound hids => exact hs.same hw
  | @insert w hrows =>
    intro key w' hrow
    rw [hrows] at hrow
    split at hrow
    · obtain rfl := Option.some.inj hrow
      exact hd.2.mono hsub
    · exact (hs key w' hrow).mono hsub

/-- What is due after a commit fits. -/
theorem Move.fits (hm : Move s s' due due') (hfresh : Fresh known s s') (hs : s.Proper known)
    (hd : due.Fits known s) : due'.Fits (known ++ taken s s') s' := by
  have hsub : known ⊆ known ++ taken s s' := List.subset_append_left _ _
  cases hm with
  | tend h => exact hd.tend h
  | @name id nodeId hw hnew =>
    refine ⟨hsub hd, List.mem_append_right _ hnew, fun w hrow hmem => ?_⟩
    exact hfresh.unknown nodeId hnew ((hs id w (hw ▸ hrow)).nodeIds nodeId hmem)
  | add hnode hrows => trivial
  | @look id w hw hrow => exact (hs id w hrow).mono hsub
  | @identify w w' hw hnew hn hc =>
    have hproper : Proper known w := hd
    refine ⟨List.mem_append_right _ hnew, hproper.sound.of_graph hn hc, fun id hid => ?_⟩
    rw [hn] at hid
    exact hsub (hproper.nodeIds id hid)
  | convert hw hnew hsound hids =>
    exact ⟨List.mem_append_right _ hnew, hsound hfresh.nodup,
      fun id hid => List.mem_append_right _ (hids id hid)⟩
  | insert hrows => trivial

/-- What is due of another call fits after a commit. -/
theorem Move.spares (hm : Move s s' due due') (ho : other.Fits known s) (ha : due.Apart other) :
    other.Fits (known ++ taken s s') s' := by
  have hsub : known ⊆ known ++ taken s s' := List.subset_append_left _ _
  cases hm with
  | tend h => exact ho.tend h
  | name hw hnew => exact ho.same hw
  | @add id nodeId node hnode hrows =>
    refine ho.keep hsub fun otherId otherNode w' he hrow hmem => ?_
    subst he
    rw [hrows] at hrow
    split at hrow
    · obtain ⟨w, hold, rfl⟩ := Option.map_eq_some_iff.mp hrow
      refine ⟨w, hold, (mem_nodeIds_addNode hnode hmem).resolve_right fun he => ?_⟩
      exact ha he.symm
    · exact ⟨w', hrow, hmem⟩
  | look hw hrow => exact ho.same hw
  | identify hw hnew hn hc => exact ho.same hw
  | convert hw hnew hsound hids => exact ho.same hw
  | @insert w hrows =>
    refine ho.keep hsub fun otherId otherNode w' he hrow hmem => ?_
    subst he
    rw [hrows] at hrow
    split at hrow
    · next hkey =>
      obtain rfl := Option.some.inj hrow
      exact absurd hmem (ha hkey)
    · exact ⟨w', hrow, hmem⟩

/-- What is due of another call does not know an identifier that has just been taken. -/
theorem Due.Apart.insert_of_unknown (ho : other.Fits known s) (hid : w.id ∉ known) :
    (Due.insert w).Apart other := by
  cases other with
  | named id nodeId => exact fun he => absurd ho.1 (he ▸ hid)
  | nothing | node | conversion | copy | graph | insert => trivial

/-- What is due after a commit goes together with what is due of another call. -/
theorem Move.apart (hm : Move s s' due due') (hfresh : Fresh known s s')
    (ho : other.Fits known s) (ha : due.Apart other) : due'.Apart other := by
  cases hm with
  | tend h => exact ha
  | @name id nodeId hw hnew =>
    have hunknown := hfresh.unknown nodeId hnew
    cases other with
    | named otherId otherNode => exact fun he => hunknown (he ▸ ho.2.1)
    | insert w => exact fun _ hmem => hunknown (ho.2.nodeIds nodeId hmem)
    | nothing | node | conversion | copy | graph => trivial
  | add hnode hrows => trivial
  | look hw hrow => trivial
  | identify hw hnew hn hc => exact .insert_of_unknown ho (hfresh.unknown _ hnew)
  | convert hw hnew hsound hids => exact .insert_of_unknown ho (hfresh.unknown _ hnew)
  | insert hrows => trivial

theorem Due.Apart.symm (h : due.Apart other) : other.Apart due := by
  cases due with
  | named id nodeId =>
    cases other with
    | named otherId otherNode => exact Ne.symm h
    | insert w => exact h
    | nothing | node | conversion | copy | graph => trivial
  | insert w =>
    cases other with
    | named id nodeId => exact h
    | nothing | node | conversion | copy | graph | insert => trivial
  | nothing | node | conversion | copy | graph =>
    cases other with
    | _ => trivial

/-- One step of a routine is one move. -/
theorem Conforms.step {p q : Routine (State η) α} (h : Conforms due p) (hs : p.Step s q s') :
    ∃ due', Move s s' due due' ∧ Conforms due' q := by
  cases hs with
  | @commit update next s =>
    cases h with
    | commit after hm hn => exact ⟨after s, hm s, hn s⟩
  | pause =>
    cases h with
    | pause h => exact ⟨due, .tend (.none rfl rfl rfl), h⟩

end Move

section Request

variable {known : List Uuid} {s : State η}

theorem proper_of_importable? {text : String} {w : Workflow} (h : importable? text = some w) :
    Proper (Request.importWorkflow text).mentions w := by
  constructor
  · rw [importable?] at h
    split at h
    · cases h
    · split at h
      · next hcheck =>
        obtain rfl := Option.some.inj h
        exact Workflow.checkGraph_eq_ok_iff.mp hcheck
      · cases h
  · intro id hid
    show id ∈ ((importable? text).map fun w => w.nodeIds.filterMap Uuid.ofText?).getD []
    rw [h]
    exact List.mem_filterMap.mpr ⟨id.text, hid, id.ofText?_text⟩

/-- What is due of a request that comes in fits and goes together with everything else. -/
theorem fits_due (engine : Engine η) (r : Request) :
    (r.due engine).Fits (known ++ r.mentions) s := by
  cases r with
  | createWorkflow name description trigger =>
    exact ⟨Workflow.isSound_of_nodes_nil rfl rfl, fun id hid => nomatch hid⟩
  | importWorkflow text =>
    rw [Request.due]
    cases h : importable? text with
    | none => trivial
    | some w => exact (proper_of_importable? h).mono (List.subset_append_right _ _)
  | addNode id templateId position =>
    rw [Request.due]
    cases engine.catalog.get? templateId with
    | none => trivial
    | some template => exact List.mem_append_right _ (List.mem_singleton_self id)
  | _ => trivial

theorem apart_due (engine : Engine η) (r : Request) (other : Due) :
    (r.due engine).Apart other := by
  cases r with
  | importWorkflow text =>
    rw [Request.due]
    cases importable? text with
    | none => trivial
    | some w => trivial
  | addNode id templateId position =>
    rw [Request.due]
    cases engine.catalog.get? templateId with
    | none => trivial
    | some template => trivial
  | _ => trivial

end Request

namespace Session

/-- A step that takes none but fresh identifiers. -/
structure FreshStep (engine : Engine η) (t next : Session η) : Prop where
  step : Step engine t next
  fresh : Fresh t.known t.state next.state

/-- What can come of an engine of which nothing has been asked yet while none but fresh identifiers
are taken. -/
def ReachesFresh (engine : Engine η) (s : State η) (t : Session η) : Prop :=
  Relation.ReflTransGen (FreshStep engine) (start s) t

/-- The stored workflows are proper, and what the calls have yet to bring in goes together with
them. -/
structure Sound (t : Session η) (duties : List (Due × Routine (State η) Bool)) : Prop where
  calls : t.calls = duties.map Prod.snd
  stored : t.state.Proper t.known
  conforms : ∀ duty ∈ duties, Conforms duty.1 duty.2
  fits : ∀ duty ∈ duties, duty.1.Fits t.known t.state
  apart : duties.Pairwise fun duty other => duty.1.Apart other.1

section Sound

variable {engine : Engine η} {t next : Session η} {s : State η}
  {duties : List (Due × Routine (State η) Bool)}

theorem Sound.call (h : t.Sound duties) (engine : Engine η) (r : Request) :
    Sound { t with calls := t.calls ++ [r.run engine], known := t.known ++ r.mentions }
      (duties ++ [(r.due engine, r.run engine)]) := by
  have hsub : t.known ⊆ t.known ++ r.mentions := List.subset_append_left _ _
  constructor
  · rw [List.map_append, h.calls]
    rfl
  · exact fun key w hrow => (h.stored key w hrow).mono hsub
  · exact List.forall_mem_append.mpr
      ⟨h.conforms, List.forall_mem_singleton.mpr (conforms_request engine r)⟩
  · refine List.forall_mem_append.mpr
      ⟨fun duty hduty => ?_, List.forall_mem_singleton.mpr (fits_due engine r)⟩
    exact (h.fits duty hduty).keep hsub fun _ _ w _ hrow hmem => ⟨w, hrow, hmem⟩
  · refine List.pairwise_append.mpr ⟨h.apart, List.pairwise_singleton _ _, ?_⟩
    intro duty _ last hlast
    rw [List.mem_singleton.mp hlast]
    exact (apart_due engine r duty.1).symm

theorem Sound.turn (h : t.Sound duties) {i : Nat} {p q : Routine (State η) Bool}
    (hi : t.calls[i]? = some p) (hs : p.Step t.state q s) (hfresh : Fresh t.known t.state s) :
    ∃ due', Sound ⟨s, t.calls.set i q, t.known ++ taken t.state s⟩ (duties.set i (due', q)) := by
  rw [h.calls, List.getElem?_map, Option.map_eq_some_iff] at hi
  obtain ⟨⟨due, p⟩, hduty, rfl⟩ := hi
  obtain ⟨hlt, hget⟩ := List.getElem?_eq_some_iff.mp hduty
  -- the call whose turn it is, and the others
  have hperm : duties.Perm ((due, p) :: duties.eraseIdx i) := by
    have hp := (List.getElem_cons_eraseIdx_perm hlt).symm
    rwa [hget] at hp
  have hmem : (due, p) ∈ duties := List.mem_of_getElem? hduty
  have hothers : ∀ other ∈ duties.eraseIdx i, other ∈ duties := fun _ => List.mem_of_mem_eraseIdx
  obtain ⟨hfirst, hrest⟩ := List.pairwise_cons.mp (h.apart.perm hperm Due.Apart.symm)
  obtain ⟨due', hmove, hconforms⟩ := (h.conforms _ hmem).step hs
  have hperm' := List.set_perm_cons_eraseIdx hlt (due', q)
  refine ⟨due', ?_, hmove.proper h.stored (h.fits _ hmem), ?_, ?_, ?_⟩
  · rw [List.map_set, h.calls]
  · intro other hother
    rcases List.mem_cons.mp (hperm'.mem_iff.mp hother) with rfl | hother
    · exact hconforms
    · exact h.conforms other (hothers other hother)
  · intro other hother
    rcases List.mem_cons.mp (hperm'.mem_iff.mp hother) with rfl | hother
    · exact hmove.fits hfresh h.stored (h.fits _ hmem)
    · exact hmove.spares (h.fits other (hothers other hother)) (hfirst other hother)
  · refine List.Pairwise.perm ?_ hperm'.symm Due.Apart.symm
    refine List.pairwise_cons.mpr ⟨fun other hother => ?_, hrest⟩
    exact hmove.apart hfresh (h.fits other (hothers other hother)) (hfirst other hother)

theorem FreshStep.sound (hs : FreshStep engine t next) (h : t.Sound duties) :
    ∃ duties', next.Sound duties' := by
  obtain ⟨hstep, hfresh⟩ := hs
  cases hstep with
  | call r => exact ⟨_, h.call engine r⟩
  | turn hi hs =>
    obtain ⟨due', hsound⟩ := h.turn hi hs hfresh
    exact ⟨_, hsound⟩
  | meanwhile hscripts hw hf =>
    refine ⟨duties, h.calls, h.stored.same hw, h.conforms, ?_, h.apart⟩
    exact fun duty hduty => (h.fits duty hduty).same hw

theorem ReachesFresh.reaches (h : ReachesFresh engine s t) : Reaches engine s t := by
  induction h with
  | refl => exact .refl
  | tail _ hstep ih => exact ih.tail hstep.step

theorem ReachesFresh.sound (hs : s.workflows.rows = Dict.empty) (h : ReachesFresh engine s t) :
    ∃ duties, t.Sound duties := by
  induction h with
  | refl =>
    refine ⟨[], rfl, fun key w hrow => ?_, List.forall_mem_nil _, List.forall_mem_nil _, .nil⟩
    rw [start, hs] at hrow
    cases hrow
  | tail _ hstep ih =>
    obtain ⟨duties, hsound⟩ := ih
    exact hstep.sound hsound

/-- Whatever is asked of an engine without workflows, and however the calls take turns: if none but
fresh identifiers are taken, every workflow that is stored has a sound graph and stands under its
own identifier. -/
theorem stored_graphs_sound (engine : Engine η) (s : State η)
    (hs : s.workflows.rows = Dict.empty) (t : Session η) (h : ReachesFresh engine s t) (key : Uuid)
    (w : Workflow) (hrow : t.state.workflows.rows.get? key = some w) :
    w.checkGraph = .ok () ∧ w.id = key := by
  have hempty : s.workflows.Filed Workflow.id := by
    intro key w hrow
    rw [hs] at hrow
    cases hrow
  have hfiled : t.state.workflows.Filed Workflow.id :=
    h.reaches.keeps (fun _ _ hedit => hedit.filed_workflows) hempty
  obtain ⟨duties, hsound⟩ := h.sound hs
  exact ⟨Workflow.checkGraph_eq_ok_iff.mpr (hsound.stored key w hrow).sound, hfiled key w hrow⟩

/-- The session after a request has come in. -/
def afterCall (engine : Engine η) (t : Session η) (r : Request) : Session η :=
  { t with calls := t.calls ++ [r.run engine], known := t.known ++ r.mentions }

/-- The session after the next commit of a call, if there is one. -/
def afterTurn (t : Session η) (i : Nat) : Session η :=
  match t.calls[i]? with
  | some (.commit update next) =>
    ⟨update t.state, t.calls.set i (next t.state), t.known ++ taken t.state (update t.state)⟩
  | _ => t

theorem ReachesFresh.call (h : ReachesFresh engine s t) (r : Request) :
    ReachesFresh engine s (t.afterCall engine r) := by
  refine h.tail ⟨.call r, ?_⟩
  constructor <;> simp [afterCall, taken, Supply.takeMany]

theorem ReachesFresh.turn (h : ReachesFresh engine s t) (i : Nat)
    (hfresh : Fresh t.known t.state (t.afterTurn i).state) :
    ReachesFresh engine s (t.afterTurn i) := by
  unfold afterTurn at hfresh ⊢
  split
  · next update next hi =>
    rw [hi] at hfresh
    exact h.tail ⟨.turn hi .commit, hfresh⟩
  · exact h

end Sound

namespace Lamp

def world : World Unit :=
  ⟨(), 0, ⟨fun n => ⟨BitVec.ofNat 128 n⟩, 0⟩, ⟨fun n => ⟨n, 0⟩, 0⟩, ⟨fun n => n, 0⟩,
    ⟨fun n => n, 0⟩⟩

def engine : Engine Unit :=
  ⟨Registry.empty, ⟨Dict.empty, .stored, .standard⟩, Catalog.builtin, 0,
    taskCrashed⟩

/-- A workflow has been made. -/
def made : Session Unit :=
  (((start (State.start world)).afterCall engine (.createWorkflow "lamp" none .manual)).afterTurn
    0).afterTurn 0

/-- Two clients add a node to it, and both have an identifier. -/
def named : Session Unit :=
  (((made.afterCall engine (.addNode ⟨0⟩ "log" Point.origin)).afterCall engine
    (.addNode ⟨0⟩ "delay" Point.origin)).afterTurn 1).afterTurn 2

/-- The second comes first. -/
def added : Session Unit := (named.afterTurn 2).afterTurn 1

theorem reachesFresh_added : ReachesFresh engine (State.start world) added := by
  have hmade : ReachesFresh engine (State.start world) made :=
    ((ReachesFresh.call .refl _).turn 0 ⟨by decide, by decide⟩).turn 0 ⟨by decide, by decide⟩
  have hnamed : ReachesFresh engine (State.start world) named :=
    (((hmade.call _).call _).turn 1 ⟨by decide, by decide⟩).turn 2 ⟨by decide, by decide⟩
  exact (hnamed.turn 2 ⟨by decide, by decide⟩).turn 1 ⟨by decide, by decide⟩

theorem stored_graphs_sound_lamp : ReachesFresh engine (State.start world) added ∧
    ∃ w, added.state.workflows.rows.get? ⟨0⟩ = some w ∧
      w.nodes.map Node.templateId = ["delay", "log"] ∧ w.checkGraph = .ok () ∧ w.id = ⟨0⟩ :=
  ⟨reachesFresh_added, _, rfl, by decide,
    stored_graphs_sound engine _ rfl added reachesFresh_added ⟨0⟩ _ rfl⟩

end Lamp

end Session

end Automation.Engine
