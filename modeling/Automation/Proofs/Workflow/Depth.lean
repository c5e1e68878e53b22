import Automation.Proofs.Workflow.Order
import Mathlib.Order.Lattice.Nat

/-!
# The depth of a node

The depth of a node is how many connections the longest way to it has. Without a cycle every node
has one: a way leads forward in the order of the graph, so it is no longer than the order. A sorting
queues a node after the last of its predecessors, and of these the deepest has its turn last; so the
nodes come into the queue by their depth, the nodes without incoming connections first and as they
are stored.
-/
namespace Automation.Workflow

/-- There is a way along so many connections that ends at a node. -/
inductive WayTo (w : Workflow) : Nat → String → Prop where
  | stay (id : String) : WayTo w 0 id
  | step {n : Nat} {a b : String} (h : WayTo w n a) (hab : w.Leads a b) : WayTo w (n + 1) b

/-- The greatest number of connections on a way to a node. -/
noncomputable def depth (w : Workflow) (id : String) : Nat := sSup {n | w.WayTo n id}

variable {w : Workflow}

/-- A way is no longer than the place of its end in an order. -/
theorem WayTo.le_idxOf {order : List String}
    (hf : ∀ c ∈ w.connections, order.idxOf c.source < order.idxOf c.target) {n : Nat} {id : String}
    (h : w.WayTo n id) : n ≤ order.idxOf id := by
  induction h with
  | stay id => exact Nat.zero_le _
  | step h hab ih =>
    obtain ⟨c, hc, rfl, rfl⟩ := hab
    exact Nat.succ_le_of_lt (ih.trans_lt (hf c hc))

theorem isGreatest_depth (hw : w.IsSound) (ha : ¬ w.HasCycle) (id : String) :
    IsGreatest {n | w.WayTo n id} (w.depth id) := by
  obtain ⟨order, -, -, hf⟩ := topologicalOrder_of_acyclic hw ha
  have hbound : BddAbove {n | w.WayTo n id} := ⟨order.idxOf id, fun n hn => hn.le_idxOf hf⟩
  exact ⟨Nat.sSup_mem ⟨0, .stay id⟩ hbound, fun n hn => le_csSup hbound hn⟩

section Depth

variable (hd : ∀ id, IsGreatest {n | w.WayTo n id} (w.depth id))
include hd

theorem depth_lt_of_leads {a b : String} (hab : w.Leads a b) : w.depth a < w.depth b :=
  (hd b).2 (WayTo.step (hd a).1 hab)

/-- A node is at most one deeper than its deepest predecessor. -/
theorem depth_le_succ {id : String} {bound : Nat}
    (h : ∀ a, w.Leads a id → w.depth a ≤ bound) : w.depth id ≤ bound + 1 := by
  obtain ⟨longest, -⟩ := hd id
  generalize w.depth id = n at longest
  cases longest with
  | stay => exact Nat.zero_le _
  | step hway hab => exact Nat.succ_le_succ (((hd _).2 hway).trans (h _ hab))

theorem depth_eq_zero_iff {id : String} : w.depth id = 0 ↔ openInto w [] id = 0 := by
  rw [openInto_eq_zero]
  constructor
  · intro hz c hc ht
    have hlt := depth_lt_of_leads hd ⟨c, hc, rfl, ht⟩
    omega
  · intro hopen
    obtain ⟨longest, -⟩ := hd id
    generalize w.depth id = n at longest
    cases longest with
    | stay => rfl
    | step _ hab =>
      obtain ⟨c, hc, -, ht⟩ := hab
      cases hopen c hc ht

end Depth

namespace Sorting

variable {s : Sorting}

/-- The nodes have come into the queue by their depth, and those of depth zero, which were there at
the start, before all others. -/
structure Layered (w : Workflow) (s : Sorting) : Prop where
  ordered : (s.emitted ++ s.queue).Pairwise fun a b => w.depth a ≤ w.depth b
  surface : ∃ below, s.emitted ++ s.queue = (start w).queue ++ below ∧
    ∀ id ∈ below, w.depth id ≠ 0

variable (hd : ∀ id, IsGreatest {n | w.WayTo n id} (w.depth id))
include hd

theorem queue_start : (start w).queue = w.nodeIds.filter fun id => w.depth id = 0 := by
  have hq : (start w).queue = w.nodeIds.filter fun id => (start w).degree id = 0 := rfl
  simp only [hq, degree_start, depth_eq_zero_iff hd]

theorem layered_start : Layered w (start w) := by
  have hzero : ∀ id ∈ (start w).queue, w.depth id = 0 := fun id hid => by
    rw [queue_start hd, List.mem_filter, decide_eq_true_eq] at hid
    exact hid.2
  constructor
  · rw [emitted_start, List.nil_append]
    refine List.pairwise_of_forall_mem_list fun a ha b _ => ?_
    rw [hzero a ha]
    exact Nat.zero_le _
  · exact ⟨[], by rw [emitted_start, List.nil_append, List.append_nil], by simp⟩

variable {id : String}

/-- No node that has come into the queue is more than one deeper than the node that has the turn. -/
theorem Layered.depth_le (h : Layered w s) (hb : Balanced w s) (hid : id ∈ s.queue) {x : String}
    (hx : x ∈ s.emitted ++ s.queue) : w.depth x ≤ w.depth id + 1 := by
  have hopen : openInto w s.emitted x = 0 := by
    rcases List.mem_append.mp hx with hx | hx
    · exact hb.openInto_emitted hx
    · exact ((hb.queued x).mp hx).2.2
  refine depth_le_succ hd ?_
  rintro a ⟨c, hc, rfl, ht⟩
  exact (List.pairwise_append.mp h.ordered).2.2 _ (openInto_eq_zero.mp hopen c hc ht) id hid

/-- A node that the turn releases is one deeper than the node that has it. -/
theorem Layered.depth_released (h : Layered w s) (hid : id ∈ s.queue) {y : String}
    (hy : y ∈ released w s.emitted id) : w.depth y = w.depth id + 1 := by
  rw [released, List.mem_filter, List.mem_dedup, decide_eq_true_eq] at hy
  obtain ⟨htarget, hopen⟩ := hy
  apply Nat.le_antisymm
  · refine depth_le_succ hd ?_
    rintro a ⟨c, hc, rfl, ht⟩
    rcases List.mem_append.mp (openInto_eq_zero.mp hopen c hc ht) with ha | ha
    · exact (List.pairwise_append.mp h.ordered).2.2 _ ha id hid
    · rw [List.mem_singleton.mp ha]
  · rw [targets, List.mem_map] at htarget
    obtain ⟨c, hc, rfl⟩ := htarget
    rw [List.mem_filter, decide_eq_true_eq] at hc
    exact depth_lt_of_leads hd ⟨c, hc.1, hc.2, rfl⟩

theorem layered_step (hb : Balanced w s) (h : Layered w s) : Layered w (step w s) := by
  cases hq : s.queue with
  | nil =>
    rw [step_of_nil hq]
    exact h
  | cons id rest =>
    have hid : id ∈ s.queue := by rw [hq]; exact List.mem_cons_self
    have hseq : (step w s).emitted ++ (step w s).queue =
        (s.emitted ++ s.queue) ++ released w s.emitted id := by
      rw [emitted_step_of_cons hq, queue_step_of_cons hb hq, hq]
      simp
    have hdeep : ∀ y ∈ released w s.emitted id, w.depth y = w.depth id + 1 :=
      fun y hy => h.depth_released hd hid hy
    -- those released come behind all others and are as deep as any node can be at this turn
    constructor
    · rw [hseq, List.pairwise_append]
      refine ⟨h.ordered, List.pairwise_of_forall_mem_list fun a ha b hb => ?_, fun x hx y hy => ?_⟩
      · rw [hdeep a ha, hdeep b hb]
      · rw [hdeep y hy]
        exact h.depth_le hd hb hid hx
    · obtain ⟨below, hbelow, hne⟩ := h.surface
      refine ⟨below ++ released w s.emitted id, by rw [hseq, hbelow, List.append_assoc], ?_⟩
      intro y hy
      rcases List.mem_append.mp hy with hy | hy
      · exact hne y hy
      · rw [hdeep y hy]
        exact Nat.succ_ne_zero _

theorem layered_run (hw : w.IsSound) (turns : Nat) (hb : Balanced w s) (h : Layered w s) :
    Layered w (run w turns s) := by
  induction turns generalizing s with
  | zero => exact h
  | succ turns ih => exact ih (balanced_step hw hb) (layered_step hd hb h)

theorem layered_final (hw : w.IsSound) : Layered w (final w) :=
  layered_run hd hw _ (balanced_start hw) (layered_start hd)

end Sorting

open Sorting

/-- On every workflow that has an order, all nodes come in it by their depth, and those of depth
zero as they are stored. -/
theorem topologicalOrder_by_depth {w : Workflow} {order : List String}
    (h : w.topologicalOrder = .ok order) :
    (∀ id, IsGreatest {n | w.WayTo n id} (w.depth id)) ∧ order.Perm w.nodeIds ∧
      order.Pairwise (fun a b => w.depth a ≤ w.depth b) ∧
      order.filter (fun id => w.depth id = 0) = w.nodeIds.filter fun id => w.depth id = 0 := by
  obtain ⟨hw, ha, rfl⟩ := sorted_of_ok h
  have hd : ∀ id, IsGreatest {n | w.WayTo n id} (w.depth id) := isGreatest_depth hw ha
  have hlayered := layered_final hd hw
  have hordered := hlayered.ordered
  obtain ⟨below, hbelow, hne⟩ := hlayered.surface
  rw [queue_final hw, List.append_nil] at hordered hbelow
  refine ⟨hd, emitted_final_perm hw ha, hordered, ?_⟩
  have hbelow' : below.filter (fun id => w.depth id = 0) = [] := by
    rw [List.filter_eq_nil_iff]
    intro id hid
    simpa using hne id hid
  rw [hbelow, List.filter_append, hbelow', List.append_nil,
    queue_start hd, List.filter_filter]
  simp

namespace Detour

def node (id : String) : Node := ⟨id, "log", id, Point.origin, .null, true⟩

/-- Two ways lead to a node, the shorter one by the connection that is stored first. -/
def detour : Workflow :=
  { Workflow.create ⟨0⟩ ⟨0, 0⟩ "detour" .manual with
    nodes := [node "d", node "b", node "a", node "c"]
    connections := [⟨"a-d", "a", "d", none, none⟩, ⟨"a-b", "a", "b", none, none⟩,
      ⟨"b-d", "b", "d", none, none⟩] }

/-- The node at the end of both ways is as deep as the longer one is long and comes last, and the
node off the ways comes before the detour. -/
theorem topologicalOrder_by_depth_detour :
    detour.topologicalOrder = .ok ["a", "c", "b", "d"] ∧
      ["a", "c", "b", "d"].Pairwise (fun a b => detour.depth a ≤ detour.depth b) ∧
      detour.depth "a" = 0 ∧ detour.depth "c" = 0 ∧ detour.depth "b" = 1 ∧
      detour.depth "d" = 2 := by
  have horder : detour.topologicalOrder = .ok ["a", "c", "b", "d"] := rfl
  obtain ⟨hd, -, hpairwise, -⟩ := topologicalOrder_by_depth horder
  have ha : detour.depth "a" = 0 := (depth_eq_zero_iff hd).mpr (by decide)
  have hc : detour.depth "c" = 0 := (depth_eq_zero_iff hd).mpr (by decide)
  have hleads : ∀ c ∈ detour.connections,
      (c.target = "b" → c.source = "a") ∧ (c.target = "d" → c.source = "a" ∨ c.source = "b") := by
    decide
  have hb : detour.depth "b" = 1 := by
    have hab : detour.Leads "a" "b" := ⟨⟨"a-b", "a", "b", none, none⟩, by decide, rfl, rfl⟩
    have hlt := depth_lt_of_leads hd hab
    rw [ha] at hlt
    refine Nat.le_antisymm (depth_le_succ hd ?_) hlt
    rintro a ⟨c, hc', rfl, ht⟩
    rw [(hleads c hc').1 ht, ha]
  have hd' : detour.depth "d" = 2 := by
    have hbd : detour.Leads "b" "d" := ⟨⟨"b-d", "b", "d", none, none⟩, by decide, rfl, rfl⟩
    have hlt := depth_lt_of_leads hd hbd
    rw [hb] at hlt
    refine Nat.le_antisymm (depth_le_succ hd ?_) hlt
    rintro a ⟨c, hc', rfl, ht⟩
    rcases (hleads c hc').2 ht with h | h
    · rw [h, ha]
      exact Nat.zero_le _
    · rw [h, hb]
  exact ⟨horder, hpairwise, ha, hc, hb, hd'⟩

end Detour
end Automation.Workflow
