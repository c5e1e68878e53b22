import Automation.Proofs.Workflow.Configured
import Automation.Proofs.Workflow.Row

/-!
# What a script is converted to

The workflow of a script is told by the script's first rule. Each action whose command has a
template in the catalog gives a node, in the order of the actions; its configuration has the
arguments under the names of the inputs and is otherwise the default of the template. The nodes are
connected one to the next. With distinct identifiers the graph is sound and its order is the one in
which the nodes are stored, so a run is the same in either order.
-/
namespace Automation.Workflow

/-- The actions of the first rule that have a template. -/
def templatedActions (catalog : Catalog) (rules : List Rule) : List Action :=
  ((rules.head?.map Rule.actions).getD []).filter fun action => (templateOf? catalog action).isSome

/-- A configuration with arguments set over the defaults of a template. Where two inputs share a
name the later one counts. -/
structure Overrides (template : Template) (arguments : List Argument) (config : Json) : Prop where
  object : ∃ members, config = .object members
  given : ∀ before input argument after,
    template.inputs.zip arguments = before ++ (input, argument) :: after →
    (∀ pair ∈ after, pair.1.name ≠ input.name) → config.field? input.name = some argument.toJson
  kept : ∀ key, (∀ pair ∈ template.inputs.zip arguments, pair.1.name ≠ key) →
    config.field? key = template.defaultConfig.field? key

/-- A node made of an action by its template. -/
structure MadeOf (catalog : Catalog) (action : Action) (node : Node) : Prop where
  enabled : node.enabled = true
  templated : ∃ template, templateOf? catalog action = some template ∧
    node.templateId = template.id ∧ node.name = template.name ∧
    Overrides template action.arguments node.config

/-- A workflow that a list of rules is converted to. -/
structure IsConversion (catalog : Catalog) (rules : List Rule) (w : Workflow) : Prop where
  disabled : w.enabled = false
  trigger : w.trigger = (rules.head?.map Rule.trigger).getD .manual
  nodes : List.Forall₂ (MadeOf catalog) (templatedActions catalog rules) w.nodes
  length_connections : w.connections.length = (templatedActions catalog rules).length - 1
  connected : ∀ (i : Nat) (c : Connection), w.connections[i]? = some c →
    ∃ a b, w.nodes[i]? = some a ∧ w.nodes[i + 1]? = some b ∧ c.source = a.id ∧ c.target = b.id

theorem overrides_configure (template : Template) (arguments : List Argument) :
    Overrides template arguments (configure template arguments) := by
  obtain ⟨defaults, hconfigure, hdefaults⟩ : ∃ defaults,
      configure template arguments =
        .object (setInputs (template.inputs.zip arguments) defaults) ∧
      ∀ key, Json.lookup key defaults = template.defaultConfig.field? key := by
    refine ⟨_, rfl, fun key => ?_⟩
    cases template.defaultConfig <;> simp [Json.field?, Json.lookup]
  refine ⟨⟨_, hconfigure⟩, fun before input argument after he hafter => ?_, fun key hkey => ?_⟩
  · have hset : setInputs (template.inputs.zip arguments) defaults =
        setInputs after
          (Json.insertMember input.name argument.toJson (setInputs before defaults)) := by
      rw [he, setInputs, List.foldl_append]
      rfl
    rw [hconfigure, Json.field?, hset, lookup_setInputs_of_ne hafter, Json.lookup_insertMember,
      if_pos rfl]
  · rw [hconfigure, Json.field?, lookup_setInputs_of_ne hkey, hdefaults]

/-- The nodes of a row are made of the actions that have a template. -/
theorem madeOf_nodesFrom (catalog : Catalog) (actions : List Action) (slot : Nat) {ids : List Uuid}
    (h : ids.length = (mappedActions catalog actions).length) :
    List.Forall₂ (MadeOf catalog)
      (actions.filter fun action => (templateOf? catalog action).isSome)
      (nodesFrom slot ids (mappedActions catalog actions)) := by
  simp only [mappedActions] at h ⊢
  -- an action without a template takes neither a place in the row nor an identifier
  induction actions generalizing slot ids with
  | nil => cases ids <;> exact .nil
  | cons action actions ih =>
    cases ht : templateOf? catalog action with
    | none =>
      simp only [List.filterMap_cons, ht, Option.map_none] at h ⊢
      rw [List.filter_cons_of_neg (by simp [ht])]
      exact ih slot h
    | some template =>
      simp only [List.filterMap_cons, ht, Option.map_some] at h ⊢
      rw [List.filter_cons_of_pos (by simp [ht])]
      cases ids with
      | nil => cases h
      | cons id ids =>
        refine .cons ⟨rfl, template, ht, rfl, rfl, ?_⟩ (ih (slot + 1) (Nat.succ.inj h))
        exact overrides_configure template action.arguments

theorem length_chain (ids : List Uuid) (nodeIds : List String) :
    (chain ids nodeIds).length = min ids.length (nodeIds.length - 1) := by
  fun_induction chain ids nodeIds with
  | case1 id ids a b rest ih => simp [ih]
  | case2 ids nodeIds hne =>
    cases ids with
    | nil => simp
    | cons id ids =>
      cases nodeIds with
      | nil => simp
      | cons a rest =>
        cases rest with
        | nil => simp
        | cons b rest => exact absurd rfl (hne id ids a b rest rfl)

theorem ends_of_chain {ids : List Uuid} {nodeIds : List String} {i : Nat} {c : Connection}
    (h : (chain ids nodeIds)[i]? = some c) :
    nodeIds[i]? = some c.source ∧ nodeIds[i + 1]? = some c.target := by
  fun_induction chain ids nodeIds generalizing i with
  | case1 id ids a b rest ih =>
    cases i with
    | zero =>
      obtain rfl := Option.some.inj h
      exact ⟨rfl, rfl⟩
    | succ i => exact ih h
  | case2 => cases h

theorem length_connections_converted (name : String) (rules : List Rule) (catalog : Catalog)
    (now : Instant) (ids : Supply Uuid) :
    (converted name rules catalog now ids).1.connections.length =
      (converted name rules catalog now ids).1.nodes.length - 1 := by
  have hconnections : (converted name rules catalog now ids).1.connections =
      chain (rowIds ids.take.2 (firstMapped catalog rules).length).2
        (converted name rules catalog now ids).1.nodeIds := rfl
  rw [hconnections, length_chain, (length_rowIds _ _).2, nodeIds, List.length_map,
    length_nodes_converted]
  exact Nat.min_self _

theorem isConversion_converted (name : String) (rules : List Rule) (catalog : Catalog)
    (now : Instant) (ids : Supply Uuid) :
    IsConversion catalog rules (converted name rules catalog now ids).1 := by
  have hnodes : List.Forall₂ (MadeOf catalog) (templatedActions catalog rules)
      (converted name rules catalog now ids).1.nodes :=
    madeOf_nodesFrom catalog _ 0 (length_rowIds _ _).1
  refine ⟨rfl, rfl, hnodes, ?_, fun i c h => ?_⟩
  · rw [length_connections_converted, hnodes.length_eq]
  · obtain ⟨hsource, htarget⟩ := ends_of_chain h
    rw [List.getElem?_map, Option.map_eq_some_iff] at hsource htarget
    obtain ⟨a, ha, hs⟩ := hsource
    obtain ⟨b, hb, ht⟩ := htarget
    exact ⟨a, b, ha, hb, hs.symm, ht.symm⟩

namespace Runner

variable {η : Type}

theorem runNodes_withOrder (runner : Runner η) (order : Order) (context : Context)
    (nodes : List Node) :
    Runner.runNodes { runner with order } context nodes = runner.runNodes context nodes := by
  induction nodes with
  | nil => rfl
  | cons node nodes ih =>
    rw [runNodes, runNodes, ih]
    rfl

/-- Where both orders are the stored one it does not matter which is asked for. -/
theorem run_withOrder {w : Workflow} (h : ∀ runner : Runner η, runner.orderedNodes w = .ok w.nodes)
    (runner : Runner η) (order : Order) (execution : Execution) (context : Context) :
    Runner.run { runner with order } w execution context = runner.run w execution context := by
  simp only [run, runOnDesk, h, runNodes_withOrder]

end Runner

theorem ofScript_eq_error_iff {script : Script} {catalog : Catalog} {now : Instant}
    {ids : Supply Uuid} {e : EngineError} :
    ofScript script catalog now ids = .error e ↔
      ∃ cause, e = .uncompiled cause ∧ Program.compile script.code = .error cause := by
  cases hcompiles : Program.compile script.code with
  | ok program =>
    rw [ofScript_eq hcompiles]
    simp
  | error cause =>
    rw [ofScript, Script.program, hcompiles]
    simp [eq_comm]

/-- What comes of a conversion. It fails if and only if the script does not compile; in particular
no connection between the nodes is refused. Otherwise the workflow is the conversion of the script's
rules, and if the identifiers taken for the workflow differ, its graph is sound, its order is the
one in which the nodes are stored, and every run of it is the same in either order. -/
theorem ofScript_converts (script : Script) (catalog : Catalog) (now : Instant)
    (ids : Supply Uuid) :
    (∀ e, ofScript script catalog now ids = .error e ↔
        ∃ cause, e = .uncompiled cause ∧ Program.compile script.code = .error cause) ∧
      ∀ program, Program.compile script.code = .ok program →
        ∃ w later, ofScript script catalog now ids = .ok (w, later) ∧
          IsConversion catalog program.rules w ∧
          (ids.Distinct (2 * w.nodes.length) →
            w.checkGraph = .ok () ∧ w.topologicalOrder = .ok w.nodeIds ∧
              ∀ (η : Type) (runner : Runner η) (execution : Execution) (context : Context),
                Runner.run { runner with order := .stored } w execution context =
                  Runner.run { runner with order := .topological } w execution context) := by
  refine ⟨fun e => ofScript_eq_error_iff, fun program hcompiles => ?_⟩
  let made := converted script.name program.rules catalog now ids
  refine ⟨made.1, made.2, ofScript_eq hcompiles catalog now ids,
    isConversion_converted _ _ _ _ _, fun hdistinct => ?_⟩
  rw [length_nodes_converted] at hdistinct
  have hrow : made.1.IsRow := isRow_converted _ _ _ _ hdistinct
  refine ⟨checkGraph_eq_ok_iff.mpr hrow.isSound, hrow.topologicalOrder_eq, ?_⟩
  intro η runner execution context
  have hgo := Runner.run_withOrder hrow.orderedNodes_eq runner
  exact (hgo .stored execution context).trans (hgo .topological execution context).symm

/-- A script with an action in between that no template stands for, and with arguments for some of
the inputs only. -/
theorem ofScript_converts_raid :
    let code := "on raid do showAlert('Raid!') startRecording() wait(1) end"
    let script := Script.create ⟨0⟩ ⟨0, 0⟩ "raid" code
    let alert : Action := ⟨"showAlert", [.string "Raid!"]⟩
    let wait : Action := ⟨"wait", [.number (.finite false Double.one)]⟩
    let rules : List Rule := [⟨.event "raid" none, [alert, ⟨"startRecording", []⟩, wait]⟩]
    let ids : Supply Uuid := ⟨fun n => ⟨BitVec.ofNat 128 n⟩, 1⟩
    Program.compile script.code = .ok ⟨rules⟩ ∧ ids.Distinct 4 ∧
      templatedActions Catalog.builtin rules = [alert, wait] ∧
      ∃ w later, ofScript script Catalog.builtin ⟨0, 0⟩ ids = .ok (w, later) ∧
        IsConversion Catalog.builtin rules w ∧ w.topologicalOrder = .ok w.nodeIds := by
  intro code script alert wait rules ids
  have hcompiles : Program.compile script.code = .ok ⟨rules⟩ := by decide +kernel
  have hdistinct : ids.Distinct 4 := by
    change (ids.takeMany 4).1.Nodup
    decide
  have htemplated : templatedActions Catalog.builtin rules = [alert, wait] := by decide +kernel
  obtain ⟨w, later, hw, hconversion, hordered⟩ :=
    (ofScript_converts script Catalog.builtin ⟨0, 0⟩ ids).2 ⟨rules⟩ hcompiles
  have hlength : w.nodes.length = 2 := by
    rw [← hconversion.nodes.length_eq, htemplated]
    rfl
  rw [hlength] at hordered
  exact ⟨hcompiles, hdistinct, htemplated, w, later, hw, hconversion, (hordered hdistinct).2.1⟩

end Automation.Workflow
