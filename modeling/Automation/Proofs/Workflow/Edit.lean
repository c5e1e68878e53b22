import Automation.Proofs.Workflow.Sorting

/-!
# Edits of a graph

What the edits of a workflow do to its graph. Removing a node takes along the connections that touch
it, and a connection only comes in between nodes that are there, so a sound graph stays sound. Only
a new node has to bring something along: an identifier that no other node has.
-/
namespace Automation.Workflow

/-- A change under which a sound graph stays sound and no node comes in. -/
structure Tended (w w' : Workflow) : Prop where
  id : w'.id = w.id
  nodeIds : w'.nodeIds.Sublist w.nodeIds
  isSound : w.IsSound → w'.IsSound

variable {w w' : Workflow}

theorem IsSound.of_graph (h : w.IsSound) (hn : w'.nodeIds = w.nodeIds)
    (hc : w'.connections = w.connections) : w'.IsSound := by
  constructor
  · rw [hn]
    exact h.nodup
  · rw [hn, hc]
    exact h.source_mem
  · rw [hn, hc]
    exact h.target_mem

theorem isSound_of_nodes_nil (hn : w.nodes = []) (hc : w.connections = []) : w.IsSound := by
  constructor
  · rw [nodeIds, hn]
    exact List.nodup_nil
  · rw [hc]
    exact List.forall_mem_nil _
  · rw [hc]
    exact List.forall_mem_nil _

theorem Tended.of_graph (hid : w'.id = w.id) (hn : w'.nodeIds = w.nodeIds)
    (hc : w'.connections = w.connections) : Tended w w' :=
  ⟨hid, hn ▸ .refl _, fun h => h.of_graph hn hc⟩

theorem Tended.refl (w : Workflow) : Tended w w := .of_graph rfl rfl rfl

/-- Fewer connections do not hurt. -/
theorem IsSound.filter (h : w.IsSound) (keep : Connection → Bool) :
    IsSound { w with connections := w.connections.filter keep } :=
  ⟨h.nodup, fun c hc => h.source_mem c (List.mem_of_mem_filter hc),
    fun c hc => h.target_mem c (List.mem_of_mem_filter hc)⟩

theorem map_id_changeFirst {change : Node → Node} (h : ∀ node, (change node).id = node.id)
    (id : String) (nodes : List Node) :
    (changeFirst id change nodes).map Node.id = nodes.map Node.id := by
  induction nodes with
  | nil => rfl
  | cons node rest ih =>
    rw [changeFirst]
    split
    · rw [List.map_cons, List.map_cons, h]
    · rw [List.map_cons, List.map_cons, ih]

theorem tended_updateNode {id : String} {change : Node → Node} {pair : Node × Workflow}
    (h : w.updateNode? id change = some pair) (hchange : ∀ node, (change node).id = node.id) :
    Tended w pair.2 := by
  obtain ⟨node, -, rfl⟩ := Option.map_eq_some_iff.mp h
  exact .of_graph rfl (map_id_changeFirst hchange id w.nodes) rfl

/-- A node goes together with the connections that touch it, those from it to itself included. -/
theorem tended_removeNode {id : String} {pair : Node × Workflow}
    (h : w.removeNode? id = some pair) : Tended w pair.2 := by
  obtain ⟨node, -, rfl⟩ := Option.map_eq_some_iff.mp h
  have hsub : ((w.nodes.eraseP fun node => node.id == id).map Node.id).Sublist w.nodeIds :=
    List.eraseP_sublist.map Node.id
  -- the ends of a connection that stays are other nodes, and those stay
  have hstays : ∀ other ∈ w.nodeIds, other ≠ id →
      other ∈ (w.nodes.eraseP fun node => node.id == id).map Node.id := by
    intro other hother hne
    obtain ⟨found, hfound, rfl⟩ := List.mem_map.mp hother
    exact List.mem_map_of_mem ((List.mem_eraseP_of_neg (by simpa using hne)).mpr hfound)
  refine ⟨rfl, hsub, fun hw => ⟨hsub.nodup hw.nodup, fun c hc => ?_, fun c hc => ?_⟩⟩
  · obtain ⟨hmem, hkeep⟩ := List.mem_filter.mp hc
    exact hstays c.source (hw.source_mem c hmem) (of_decide_eq_true hkeep).1
  · obtain ⟨hmem, hkeep⟩ := List.mem_filter.mp hc
    exact hstays c.target (hw.target_mem c hmem) (of_decide_eq_true hkeep).2

theorem isNone_node?_iff {id : String} : (w.node? id).isNone ↔ id ∉ w.nodeIds := by
  rw [Option.isNone_iff_eq_none, node?, List.find?_eq_none, nodeIds, List.mem_map]
  constructor
  · rintro h ⟨node, hnode, rfl⟩
    exact h node hnode (beq_self_eq_true _)
  · rintro h node hnode he
    exact h ⟨node, hnode, eq_of_beq he⟩

theorem missingEnd?_eq_none_iff {source target : String} :
    w.missingEnd? source target = none ↔ source ∈ w.nodeIds ∧ target ∈ w.nodeIds := by
  simp only [missingEnd?, isNone_node?_iff]
  by_cases hsource : source ∈ w.nodeIds <;> by_cases htarget : target ∈ w.nodeIds <;>
    simp [hsource, htarget]

/-- Nodes that are there can be connected. -/
theorem connect_of_mem {c : Connection} (hsource : c.source ∈ w.nodeIds)
    (htarget : c.target ∈ w.nodeIds) :
    w.connect c = .ok { w with connections := w.connections ++ [c] } := by
  rw [connect, missingEnd?_eq_none_iff.mpr ⟨hsource, htarget⟩]

theorem tended_connect {c : Connection} (h : w.connect c = .ok w') : Tended w w' := by
  rw [connect] at h
  cases hends : w.missingEnd? c.source c.target with
  | some e =>
    rw [hends] at h
    cases h
  | none =>
    rw [hends] at h
    cases h
    obtain ⟨hsource, htarget⟩ := missingEnd?_eq_none_iff.mp hends
    refine ⟨rfl, .refl _, fun hw => ⟨hw.nodup, ?_, ?_⟩⟩
    · exact List.forall_mem_append.mpr ⟨hw.source_mem, List.forall_mem_singleton.mpr hsource⟩
    · exact List.forall_mem_append.mpr ⟨hw.target_mem, List.forall_mem_singleton.mpr htarget⟩

theorem tended_disconnect (w : Workflow) (id : String) : Tended w (w.disconnect id) :=
  ⟨rfl, .refl _, fun hw => hw.filter _⟩

theorem isSound_addNode {node : Node} (h : w.IsSound) (hn : node.id ∉ w.nodeIds) :
    (w.addNode node).IsSound := by
  have hids : (w.addNode node).nodeIds = w.nodeIds ++ [node.id] := List.map_append
  constructor
  · rw [hids]
    exact List.concat_eq_append ▸ h.nodup.concat hn
  · rw [hids]
    exact fun c hc => List.mem_append_left _ (h.source_mem c hc)
  · rw [hids]
    exact fun c hc => List.mem_append_left _ (h.target_mem c hc)

end Automation.Workflow
