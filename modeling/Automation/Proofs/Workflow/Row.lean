import Automation.Proofs.Uuid
import Automation.Proofs.Workflow.Edit
import Automation.Proofs.Workflow.Order
import Automation.Workflow.Conversion
import Automation.Workflow.Run
import Mathlib.Data.List.Chain
import Mathlib.Data.List.Nodup

/-!
# Nodes in a row

The nodes that a rule becomes stand in a row: each is connected to the next, and there are no other
connections. A row has one order only, which is the order in which its nodes are stored, so a run
goes the same way whether it asks for the order or not. All of this needs identifiers that differ,
and the supply from which they come must give them.
-/
namespace Automation

namespace Supply

variable {α : Type}

theorem takeMany_add (s : Supply α) (first second : Nat) :
    (s.takeMany (first + second)).1 =
      (s.takeMany first).1 ++ ((s.takeMany first).2.takeMany second).1 := by
  induction first generalizing s with
  | zero =>
    rw [Nat.zero_add]
    rfl
  | succ first ih =>
    rw [Nat.succ_add]
    exact congrArg (List.cons _) (ih s.take.2)

/-- The next values of a supply differ. -/
def Distinct (s : Supply α) (count : Nat) : Prop := (s.takeMany count).1.Nodup

/-- Takes pairs of values. -/
def takePairs (s : Supply α) : (count : Nat) → List (α × α)
  | 0 => []
  | count + 1 => (s.take.1, s.take.2.take.1) :: s.take.2.take.2.takePairs count

theorem length_takePairs (s : Supply α) (count : Nat) : (s.takePairs count).length = count := by
  induction count generalizing s with
  | zero => rfl
  | succ count ih => exact congrArg (· + 1) (ih _)

theorem map_fst_takePairs_sublist (s : Supply α) (count : Nat) :
    ((s.takePairs count).map Prod.fst).Sublist (s.takeMany (2 * count)).1 := by
  induction count generalizing s with
  | zero => exact .slnil
  | succ count ih => exact ((ih _).cons _).cons_cons _

theorem Distinct.later {s : Supply α} {count : Nat} (h : s.Distinct (count + 1)) :
    s.take.2.Distinct count :=
  (List.nodup_cons.mp h).2

theorem Distinct.of_add {s : Supply α} {count more : Nat} (h : s.Distinct (count + more)) :
    s.Distinct count := by
  rw [Distinct, takeMany_add] at h
  exact (List.nodup_append.mp h).1

end Supply

namespace Workflow

/-- Each node is connected to the next, and no others are. -/
structure IsRow (w : Workflow) : Prop where
  nodup : w.nodeIds.Nodup
  joined : w.nodeIds.IsChain w.Leads
  only : ∀ c ∈ w.connections, [c.source, c.target] <:+: w.nodeIds

namespace IsRow

variable {w : Workflow}

theorem isSound (h : w.IsRow) : w.IsSound := by
  have hsub : ∀ c ∈ w.connections, [c.source, c.target] ⊆ w.nodeIds :=
    fun c hc => (h.only c hc).subset
  exact ⟨h.nodup, fun c hc => hsub c hc (by simp), fun c hc => hsub c hc (by simp)⟩

theorem idxOf_lt (h : w.IsRow) {a b : String} (hl : w.Leads a b) :
    w.nodeIds.idxOf a < w.nodeIds.idxOf b := by
  obtain ⟨c, hc, rfl, rfl⟩ := hl
  obtain ⟨front, rest, he⟩ := h.only c hc
  have hn := h.nodup
  rw [← he, List.append_assoc, List.nodup_append] at hn
  have hsource : c.source ∉ front := fun hs => hn.2.2 _ hs _ List.mem_cons_self rfl
  have htarget : c.target ∉ front := fun ht => hn.2.2 _ ht _ (by simp) rfl
  have hne : c.source ≠ c.target := by
    have := (List.nodup_cons.mp hn.2.1).1
    simp_all
  rw [← he, List.append_assoc, List.idxOf_append_of_notMem hsource,
    List.idxOf_append_of_notMem htarget]
  simp [hne]

theorem not_hasCycle (h : w.IsRow) : ¬ w.HasCycle :=
  not_hasCycle_of_forward w.nodeIds.idxOf fun _ _ => h.idxOf_lt

/-- The order of a row is the order in which it is stored. -/
theorem topologicalOrder_eq (h : w.IsRow) : w.topologicalOrder = .ok w.nodeIds := by
  obtain ⟨order, he, hp, hlt⟩ := topologicalOrder_of_acyclic h.isSound h.not_hasCycle
  let before (a b : String) : Prop := order.idxOf a < order.idxOf b
  have hleads : ∀ {a b}, w.Leads a b → before a b := by
    rintro a b ⟨c, hc, rfl, rfl⟩
    exact hlt c hc
  have hstored : w.nodeIds.Pairwise before := by
    have : Trans before before before := ⟨Nat.lt_trans⟩
    exact List.isChain_iff_pairwise.mp (h.joined.imp fun _ _ => hleads)
  have horder : order.Pairwise before := by
    have hn : order.Nodup := hp.nodup_iff.mpr h.nodup
    rw [List.pairwise_iff_getElem]
    intro i j hi hj hij
    change order.idxOf order[i] < order.idxOf order[j]
    rwa [hn.idxOf_getElem, hn.idxOf_getElem]
  rw [he, hp.eq_of_pairwise (fun a b _ _ hab hba => absurd hba (Nat.lt_asymm hab)) horder hstored]

end IsRow

/-- Nodes with different identifiers are found under them. -/
theorem filterMap_node? {w : Workflow} (h : w.nodeIds.Nodup) :
    w.nodeIds.filterMap w.node? = w.nodes := by
  have hfound : ∀ node ∈ w.nodes, w.node? node.id = some node := by
    intro node hm
    obtain ⟨front, rest, he⟩ := List.append_of_mem hm
    rw [nodeIds, he, List.map_append, List.map_cons, List.nodup_append] at h
    rw [node?, he, List.find?_eq_some_iff_append]
    refine ⟨by simp, front, rest, rfl, fun other ho => ?_⟩
    have hne := h.2.2 _ (List.mem_map_of_mem ho) _ List.mem_cons_self
    simpa using hne
  rw [nodeIds, List.filterMap_map]
  calc w.nodes.filterMap (w.node? ∘ Node.id)
      = w.nodes.filterMap some := List.filterMap_congr hfound
    _ = w.nodes := List.filterMap_some

/-- A run goes along a row as it is stored, in either order. -/
theorem IsRow.orderedNodes_eq {η : Type} {w : Workflow} (h : w.IsRow) (runner : Runner η) :
    runner.orderedNodes w = .ok w.nodes := by
  rw [Runner.orderedNodes]
  cases runner.order with
  | stored => rfl
  | topological =>
    rw [h.topologicalOrder_eq]
    exact congrArg Except.ok (filterMap_node? h.nodup)

/-- The template of an action's command, if there is one in the catalog. -/
def templateOf? (catalog : Catalog) (action : Action) : Option Template :=
  (templateFor? action.command).bind catalog.get?

/-- The actions that become nodes, each with its template. -/
def mappedActions (catalog : Catalog) (actions : List Action) : List (Template × Action) :=
  actions.filterMap fun action => (templateOf? catalog action).map fun template =>
    (template, action)

/-- The nodes of a row of actions, starting at a slot. -/
def nodesFrom (slot : Nat) : List Uuid → List (Template × Action) → List Node
  | id :: ids, (template, action) :: rest =>
    nodeOfAction id slot template action :: nodesFrom (slot + 1) ids rest
  | _, _ => []

/-- Connections from each node to the next. -/
def chain : List Uuid → List String → List Connection
  | id :: ids, a :: b :: rest => ⟨id.text, a, b, none, none⟩ :: chain ids (b :: rest)
  | _, _ => []

/-- The identifiers of the nodes and of the connections of a row. After the first node, every node
is followed by its connection. -/
def rowIds (ids : Supply Uuid) : (count : Nat) → List Uuid × List Uuid
  | 0 => ([], [])
  | count + 1 =>
    let pairs := ids.take.2.takePairs count
    (ids.take.1 :: pairs.map Prod.fst, pairs.map Prod.snd)

theorem length_rowIds (ids : Supply Uuid) (count : Nat) :
    (rowIds ids count).1.length = count ∧ (rowIds ids count).2.length = count - 1 := by
  cases count with
  | zero => exact ⟨rfl, rfl⟩
  | succ count => simp [rowIds, Supply.length_takePairs]

/-- The nodes take their identifiers after the workflow has taken its own. -/
theorem rowIds_sublist (ids : Supply Uuid) (count : Nat) :
    (rowIds ids.take.2 count).1.Sublist (ids.takeMany (2 * count)).1 := by
  cases count with
  | zero => exact .slnil
  | succ count => exact ((ids.take.2.take.2.map_fst_takePairs_sublist count).cons_cons _).cons _

theorem map_id_nodesFrom {slot : Nat} {ids : List Uuid} {mapped : List (Template × Action)}
    (h : ids.length = mapped.length) :
    (nodesFrom slot ids mapped).map Node.id = ids.map Uuid.text := by
  fun_induction nodesFrom slot ids mapped with
  | case1 slot id ids template action rest ih =>
    rw [List.map_cons, List.map_cons, ih (Nat.succ.inj h)]
    rfl
  | case2 ids slot mapped hne =>
    cases ids with
    | nil => rfl
    | cons id ids =>
      cases mapped with
      | nil => cases h
      | cons pair rest => exact absurd rfl (hne id ids pair.1 pair.2 rest rfl)

theorem infix_of_mem_chain {ids : List Uuid} {nodeIds : List String} {c : Connection}
    (h : c ∈ chain ids nodeIds) : [c.source, c.target] <:+: nodeIds := by
  fun_induction chain ids nodeIds with
  | case1 id ids a b rest ih =>
    rcases List.mem_cons.mp h with rfl | h
    · exact ⟨[], rest, rfl⟩
    · exact (ih h).trans (List.suffix_cons _ _).isInfix
  | case2 => cases h

/-- With one identifier less than there are nodes, all neighbours are connected. -/
theorem isChain_chain {ids : List Uuid} {nodeIds : List String}
    (h : nodeIds.length ≤ ids.length + 1) :
    nodeIds.IsChain fun a b => ∃ c ∈ chain ids nodeIds, c.source = a ∧ c.target = b := by
  fun_induction chain ids nodeIds with
  | case1 id ids a b rest ih =>
    have hrest := ih (Nat.le_of_succ_le_succ h)
    rw [List.isChain_cons_cons]
    refine ⟨⟨_, List.mem_cons_self, rfl, rfl⟩, hrest.imp fun x y => ?_⟩
    rintro ⟨c, hc, hs, ht⟩
    exact ⟨c, List.mem_cons_of_mem _ hc, hs, ht⟩
  | case2 ids nodeIds hne =>
    cases nodeIds with
    | nil => exact .nil
    | cons a rest =>
      cases rest with
      | nil => exact .singleton _
      | cons b rest =>
        cases ids with
        | nil => simp at h
        | cons id ids => exact absurd rfl (hne id ids a b rest rfl)

theorem nodeFor?_eq (catalog : Catalog) (action : Action) (slot : Nat) (ids : Supply Uuid) :
    nodeFor? catalog action slot ids = (templateOf? catalog action).map fun template =>
      (nodeOfAction ids.take.1 slot template action, ids.take.2) := by
  rw [nodeFor?, templateOf?]
  cases templateFor? action.command with
  | none => rfl
  | some id => cases h : catalog.get? id <;> simp [h]

theorem mappedActions_cons {catalog : Catalog} {action : Action} {template : Template}
    (h : templateOf? catalog action = some template) (rest : List Action) :
    mappedActions catalog (action :: rest) = (template, action) :: mappedActions catalog rest := by
  rw [mappedActions, List.filterMap_cons, h]
  rfl

/-- An action without a template adds nothing. -/
theorem addActions_of_none {catalog : Catalog} {action : Action}
    (h : templateOf? catalog action = none) (previous : Option String) (w : Workflow)
    (ids : Supply Uuid) (rest : List Action) :
    addActions catalog previous w ids (action :: rest) = addActions catalog previous w ids rest ∧
      mappedActions catalog (action :: rest) = mappedActions catalog rest := by
  constructor
  · rw [addActions, nodeFor?_eq, h]
    rfl
  · rw [mappedActions, List.filterMap_cons, h]
    rfl

theorem follow_of_mem {w : Workflow} {source id : String} (hsource : source ∈ w.nodeIds)
    (hid : id ∈ w.nodeIds) (ids : Supply Uuid) :
    w.follow (some source) id ids =
      .ok ({ w with connections := w.connections ++ [⟨ids.take.1.text, source, id, none, none⟩] },
        ids.take.2) := by
  have hconnect := connect_of_mem (c := ⟨ids.take.1.text, source, id, none, none⟩) hsource hid
  simp only [follow, hconnect]
  rfl

/-- An action with a template adds its node, and the connection to it from a node that is there. No
such connection is refused: the node at its one end has just been added, and the one before it has
not gone. -/
theorem addActions_of_some {catalog : Catalog} {action : Action} {template : Template}
    (ht : templateOf? catalog action = some template) {previous : String} {w : Workflow}
    (h : previous ∈ w.nodeIds) (ids : Supply Uuid) (rest : List Action) :
    let node := nodeOfAction ids.take.1 w.nodes.length template action
    node.id ∈ (w.addNode node).nodeIds ∧
      addActions catalog (some previous) w ids (action :: rest) =
        addActions catalog (some node.id) { w.addNode node with
          connections := w.connections ++
            [⟨ids.take.2.take.1.text, previous, node.id, none, none⟩] } ids.take.2.take.2 rest := by
  intro node
  have hids : (w.addNode node).nodeIds = w.nodeIds ++ [node.id] := List.map_append
  have hprevious : previous ∈ (w.addNode node).nodeIds := hids ▸ List.mem_append_left _ h
  have hnode : node.id ∈ (w.addNode node).nodeIds := by simp [hids]
  refine ⟨hnode, ?_⟩
  rw [addActions, nodeFor?_eq, ht]
  show ((w.addNode node).follow (some previous) node.id ids.take.2 >>= fun p =>
    addActions catalog (some node.id) p.1 p.2 rest) = _
  rw [follow_of_mem hprevious hnode]
  rfl

/-- From a node that is there, the nodes of further actions are put in a row. -/
theorem addActions_of_previous (catalog : Catalog) (actions : List Action) {previous : String}
    {w : Workflow} (ids : Supply Uuid) (h : previous ∈ w.nodeIds) :
    let mapped := mappedActions catalog actions
    let pairs := ids.takePairs mapped.length
    let nodes := nodesFrom w.nodes.length (pairs.map Prod.fst) mapped
    addActions catalog (some previous) w ids actions = .ok ({ w with
      nodes := w.nodes ++ nodes
      connections := w.connections ++ chain (pairs.map Prod.snd) (previous :: nodes.map Node.id) },
      ⟨ids.value, ids.used + 2 * mapped.length⟩) := by
  induction actions generalizing previous w ids with
  | nil =>
    rw [addActions]
    simp [mappedActions, nodesFrom, chain, Supply.takePairs]
  | cons action rest ih =>
    cases ht : templateOf? catalog action with
    | none =>
      obtain ⟨hgo, hmapped⟩ := addActions_of_none ht (some previous) w ids rest
      rw [hgo, hmapped]
      exact ih ids h
    | some template =>
      let node := nodeOfAction ids.take.1 w.nodes.length template action
      let longer : Workflow := { w.addNode node with
        connections := w.connections ++ [⟨ids.take.2.take.1.text, previous, node.id, none, none⟩] }
      obtain ⟨hnode, hstep⟩ := addActions_of_some ht h ids rest
      have hlength : longer.nodes.length = w.nodes.length + 1 := List.length_append
      have hused (count : Nat) :
          ids.take.2.take.2.used + 2 * count = ids.used + 2 * (count + 1) := by
        show ids.used + 1 + 1 + 2 * count = _
        omega
      rw [hstep, ih (w := longer) _ hnode, mappedActions_cons ht rest, hlength]
      simp only [List.length_cons, Supply.takePairs, List.map_cons, nodesFrom, chain, longer,
        addNode, List.append_assoc, List.cons_append, List.nil_append, hused]
      rfl

/-- In a workflow without nodes the nodes of actions are put in a row. -/
theorem addActions_eq (catalog : Catalog) (actions : List Action) {w : Workflow}
    (ids : Supply Uuid) (hn : w.nodes = []) (hc : w.connections = []) :
    let mapped := mappedActions catalog actions
    let nodes := nodesFrom 0 (rowIds ids mapped.length).1 mapped
    addActions catalog none w ids actions = .ok ({ w with
      nodes, connections := chain (rowIds ids mapped.length).2 (nodes.map Node.id) },
      ⟨ids.value, ids.used + (mapped.length + (mapped.length - 1))⟩) := by
  induction actions with
  | nil => cases w; cases hn; cases hc; rfl
  | cons action rest ih =>
    cases ht : templateOf? catalog action with
    | none =>
      obtain ⟨hgo, hmapped⟩ := addActions_of_none ht none w ids rest
      rw [hgo, hmapped]
      exact ih
    | some template =>
      let node := nodeOfAction ids.take.1 0 template action
      have hmapped := mappedActions_cons ht rest
      have hnodes : (w.addNode node).nodes = [node] := by rw [addNode, hn]; rfl
      have hstep : addActions catalog none w ids (action :: rest) =
          addActions catalog (some node.id) (w.addNode node) ids.take.2 rest := by
        rw [addActions, nodeFor?_eq, ht, hn]
        rfl
      have hused (count : Nat) : ids.take.2.used + 2 * count =
          ids.used + (count + 1 + (count + 1 - 1)) := by
        show ids.used + 1 + 2 * count = _
        omega
      rw [hstep, addActions_of_previous catalog rest _ (by simp [nodeIds, hnodes]), hmapped, hnodes]
      simp only [List.length_cons, rowIds, nodesFrom, List.map_cons, hused, addNode, hc]
      rfl

/-- The actions of the first rule that become nodes. -/
def firstMapped (catalog : Catalog) (rules : List Rule) : List (Template × Action) :=
  mappedActions catalog ((rules.head?.map Rule.actions).getD [])

/-- The workflow of rules whose nodes are a ready-made row, and what is left of the supply: the
workflow takes an identifier for itself, one for each node, and one less for the connections. -/
def converted (name : String) (rules : List Rule) (catalog : Catalog) (now : Instant)
    (ids : Supply Uuid) : Workflow × Supply Uuid :=
  let mapped := firstMapped catalog rules
  let (nodeIds, connectionIds) := rowIds ids.take.2 mapped.length
  let nodes := nodesFrom 0 nodeIds mapped
  ({ generated name ((rules.head?.map Rule.trigger).getD .manual) ids.take.1 now with
      nodes
      connections := chain connectionIds (nodes.map Node.id) },
    ⟨ids.value, ids.used + (mapped.length + 1 + (mapped.length - 1))⟩)

/-- Nodes and connections can be added one by one. Nothing is refused, and they make a row. -/
theorem ofRules_eq (name : String) (rules : List Rule) (catalog : Catalog) (now : Instant)
    (ids : Supply Uuid) :
    ofRules name rules catalog now ids = .ok (converted name rules catalog now ids) := by
  cases rules with
  | nil => rfl
  | cons rule rest =>
    have hused (count : Nat) : ids.take.2.used + (count + (count - 1)) =
        ids.used + (count + 1 + (count - 1)) := by
      show ids.used + 1 + (count + (count - 1)) = _
      omega
    rw [ofRules]
    refine (addActions_eq catalog rule.actions ids.take.2 rfl rfl).trans ?_
    rw [hused]
    rfl

/-- A script that compiles is converted. -/
theorem ofScript_eq {script : Script} {program : Program} (h : script.program = .ok program)
    (catalog : Catalog) (now : Instant) (ids : Supply Uuid) :
    ofScript script catalog now ids =
      .ok (converted script.name program.rules catalog now ids) := by
  rw [ofScript, h]
  show (ofRules _ _ _ _ _).mapError _ = _
  rw [ofRules_eq]
  rfl

section Converted

variable (name : String) (rules : List Rule) (catalog : Catalog) (now : Instant) (ids : Supply Uuid)

theorem nodeIds_converted :
    (converted name rules catalog now ids).1.nodeIds =
      (rowIds ids.take.2 (firstMapped catalog rules).length).1.map Uuid.text :=
  map_id_nodesFrom (length_rowIds _ _).1

theorem length_nodes_converted :
    (converted name rules catalog now ids).1.nodes.length = (firstMapped catalog rules).length := by
  have h := congrArg List.length (nodeIds_converted name rules catalog now ids)
  rwa [nodeIds, List.length_map, List.length_map, (length_rowIds _ _).1] at h

/-- The nodes of a converted rule stand in a row if the identifiers that were taken differ. -/
theorem isRow_converted {ids : Supply Uuid}
    (h : ids.Distinct (2 * (firstMapped catalog rules).length)) :
    (converted name rules catalog now ids).1.IsRow := by
  have hids := nodeIds_converted name rules catalog now ids
  have hlength : (converted name rules catalog now ids).1.nodeIds.length ≤
      (rowIds ids.take.2 (firstMapped catalog rules).length).2.length + 1 := by
    rw [hids, List.length_map, (length_rowIds _ _).1, (length_rowIds _ _).2]
    omega
  constructor
  · rw [hids]
    exact ((rowIds_sublist ids _).nodup h).map Uuid.text_injective
  · exact isChain_chain hlength
  · intro c hc
    exact infix_of_mem_chain hc

end Converted

end Workflow
end Automation
