import Automation.Proofs.Workflow.Order

/-!
# Which node is next

The nodes stand in a line in which each keeps its place: first those without incoming connections,
as they are stored, then turn by turn those that the turn releases. The node at the front is next.
So a tie between nodes that are ready goes to the one that has waited longest, and of nodes that one
turn has released to the one whose last connection from there is stored first. It goes to the one
that is stored first if and only if that is the same, that is, as long as those who wait stand as
they are stored.
-/
namespace Automation.Workflow

/-- A node that has not had its turn, after all its predecessors have had theirs. -/
structure IsReady (w : Workflow) (done : List String) (id : String) : Prop where
  mem : id ∈ w.nodeIds
  waiting : id ∉ done
  led : ∀ a, w.Leads a id → a ∈ done

/-- One node is stored before another. -/
def StoredBefore (w : Workflow) (a b : String) : Prop := w.nodeIds.idxOf a < w.nodeIds.idxOf b

/-- Every tie in an order goes to the node that is stored first. -/
def TiesAsStored (w : Workflow) (order : List String) : Prop :=
  ∀ before id after, order = before ++ id :: after →
    ∀ other, w.IsReady before other → other ≠ id → w.StoredBefore id other

theorem forall_leads_iff {w : Workflow} {done : List String} {id : String} :
    (∀ a, w.Leads a id → a ∈ done) ↔ openInto w done id = 0 := by
  rw [openInto_eq_zero]
  constructor
  · intro h c hc ht
    exact h _ ⟨c, hc, rfl, ht⟩
  · rintro h a ⟨c, hc, rfl, ht⟩
    exact h c hc ht

namespace Sorting

/-- The nodes that some turns release, after others. -/
def releases (w : Workflow) (done : List String) : List String → List String
  | [] => []
  | id :: rest => released w done id ++ releases w (done ++ [id]) rest

/-- The line in which the nodes stand when some have had their turns. -/
def line (w : Workflow) (turns : List String) : List String :=
  (w.nodeIds.filter fun id => openInto w [] id = 0) ++ releases w [] turns

variable {w : Workflow} {s : Sorting}

theorem releases_append (done turns more : List String) :
    releases w done (turns ++ more) = releases w done turns ++ releases w (done ++ turns) more := by
  induction turns generalizing done with
  | nil => simp [releases]
  | cons id rest ih => simp [releases, ih]

theorem line_append (turns more : List String) :
    line w (turns ++ more) = line w turns ++ releases w turns more := by
  rw [line, releases_append, List.nil_append, ← List.append_assoc]
  rfl

/-- Who stands in the line keeps the place. -/
theorem line_prefix {turns more : List String} (h : turns <+: more) :
    line w turns <+: line w more := by
  obtain ⟨rest, rfl⟩ := h
  rw [line_append]
  exact List.prefix_append _ _

/-- After some turns a node is at the front of the line, and those who wait are the nodes that are
ready. -/
def NextInLine (w : Workflow) (turns : List String) (id : String) : Prop :=
  ∃ behind, line w turns = turns ++ id :: behind ∧
    ∀ other, other ∈ id :: behind ↔ w.IsReady turns other

/-- The queue is what is left of the line, now and at every turn before. -/
structure InLine (w : Workflow) (s : Sorting) : Prop where
  line_eq : line w s.emitted = s.emitted ++ s.queue
  next : ∀ before id after, s.emitted = before ++ id :: after → NextInLine w before id

theorem inLine_start (w : Workflow) : InLine w (start w) := by
  have he := emitted_start w
  have hq : (start w).queue = w.nodeIds.filter fun id => (start w).degree id = 0 := rfl
  constructor
  · simp [he, hq, line, releases, degree_start]
  · intro before id after h
    rw [he] at h
    simp at h

theorem Balanced.mem_queue_iff (h : Balanced w s) {id : String} :
    id ∈ s.queue ↔ w.IsReady s.emitted id := by
  rw [h.queued, ← forall_leads_iff]
  exact ⟨fun ⟨hm, hn, hl⟩ => ⟨hm, hn, hl⟩, fun ⟨hm, hn, hl⟩ => ⟨hm, hn, hl⟩⟩

theorem inLine_step (hb : Balanced w s) (h : InLine w s) : InLine w (step w s) := by
  cases hq : s.queue with
  | nil =>
    rw [step_of_nil hq]
    exact h
  | cons id rest =>
    have he := emitted_step_of_cons (w := w) hq
    have hline := h.line_eq
    rw [hq] at hline
    have hnext : NextInLine w s.emitted id :=
      ⟨rest, hline, fun other => by rw [← hq]; exact hb.mem_queue_iff⟩
    constructor
    · rw [he, queue_step_of_cons hb hq, line_append, hline]
      simp [releases]
    · rw [he]
      exact forall_cut_append h.next hnext

theorem inLine_run (hw : w.IsSound) (turns : Nat) (hb : Balanced w s) (h : InLine w s) :
    InLine w (run w turns s) := by
  induction turns generalizing s with
  | zero => exact h
  | succ turns ih => exact ih (balanced_step hw hb) (inLine_step hb h)

theorem inLine_final (hw : w.IsSound) : InLine w (final w) :=
  inLine_run hw _ (balanced_start hw) (inLine_start w)

/-- When all nodes have had their turns, they have had them as they stood in the line. -/
theorem line_final (hw : w.IsSound) : line w (final w).emitted = (final w).emitted := by
  rw [(inLine_final hw).line_eq, queue_final hw, List.append_nil]

end Sorting

open Sorting

/-- An order in which every node was at the front of the line when its turn came. -/
structure FollowsLine (w : Workflow) (order : List String) : Prop where
  line_eq : line w order = order
  next : ∀ before id after, order = before ++ id :: after → NextInLine w before id

theorem followsLine_of_ok {w : Workflow} {order : List String}
    (h : w.topologicalOrder = .ok order) : w.FollowsLine order := by
  obtain ⟨hw, -, rfl⟩ := sorted_of_ok h
  exact ⟨line_final hw, (inLine_final hw).next⟩

namespace FollowsLine

variable {w : Workflow} {order turns : List String} (h : w.FollowsLine order)
include h

/-- At every turn the line begins with those who have had theirs. -/
theorem exists_waiting (ht : turns <+: order) : ∃ waiting, line w turns = turns ++ waiting := by
  obtain ⟨rest, rfl⟩ := ht
  cases rest with
  | nil =>
    have hline := h.line_eq
    rw [List.append_nil] at hline
    exact ⟨[], by rw [hline, List.append_nil]⟩
  | cons id rest =>
    obtain ⟨behind, hline, -⟩ := h.next turns id rest rfl
    exact ⟨id :: behind, hline⟩

/-- Of two who wait the one in front has its turn while the other is ready. -/
theorem ready_behind (ht : turns <+: order) {front rest : List String} {a b : String}
    (hw : line w turns = turns ++ (front ++ a :: rest)) (hb : b ∈ rest) :
    (∃ after, order = (turns ++ front) ++ a :: after) ∧ w.IsReady (turns ++ front) b := by
  obtain ⟨later, horder⟩ : line w turns <+: order := by
    have hline := line_prefix (w := w) ht
    rwa [h.line_eq] at hline
  rw [hw, ← List.append_assoc, List.append_assoc, List.cons_append] at horder
  refine ⟨⟨rest ++ later, horder.symm⟩, ?_⟩
  obtain ⟨behind, hline, hready⟩ := h.next _ a _ horder.symm
  -- who waits after `turns` still waits when `a` has its turn
  have hstill : line w turns <+: line w (turns ++ front) := line_prefix (List.prefix_append _ _)
  rw [hw, hline, ← List.append_assoc, List.prefix_append_right_inj, List.cons_prefix_cons] at hstill
  exact (hready b).mp (List.mem_cons_of_mem _ (hstill.2.subset hb))

/-- Ties go to the node that is stored first if and only if those who wait stand as they are stored,
at every turn. -/
theorem tiesAsStored_iff (hn : order.Nodup) : w.TiesAsStored order ↔
    ∀ turns, turns <+: order → ((line w turns).drop turns.length).Pairwise w.StoredBefore := by
  constructor
  · intro hties turns ht
    obtain ⟨waiting, hw⟩ := h.exists_waiting ht
    have hnodup : waiting.Nodup := by
      have hline := line_prefix (w := w) ht
      rw [h.line_eq, hw] at hline
      exact (List.nodup_append.mp (hn.sublist hline.sublist)).2.1
    rw [hw, List.drop_left, List.pairwise_iff_forall_sublist]
    intro a b hab
    obtain ⟨upTo, later, rfl, ha, hb⟩ := List.cons_sublist_iff.mp hab
    obtain ⟨front, between, rfl⟩ := List.append_of_mem ha
    have hb : b ∈ between ++ later :=
      List.mem_append_right _ (List.singleton_sublist.mp hb)
    rw [List.append_assoc, List.cons_append] at hw hnodup
    obtain ⟨⟨after, hcut⟩, hready⟩ := h.ready_behind ht hw hb
    have hne : b ≠ a := by
      rintro rfl
      exact (List.nodup_cons.mp (List.nodup_append.mp hnodup).2.1).1 hb
    exact hties _ a after hcut b hready hne
  · intro hstored before id after he other hready hne
    obtain ⟨behind, hline, hmem⟩ := h.next before id after he
    have hwait := hstored before ⟨id :: after, he.symm⟩
    rw [hline, List.drop_left, List.pairwise_cons] at hwait
    exact hwait.1 other ((List.mem_cons.mp ((hmem other).mpr hready)).resolve_left hne)

/-- An order is the only one that comes out of the line. -/
theorem eq_of_line {ids : List String} (hlength : order.length = ids.length)
    (hline : line w ids = ids) : order = ids := by
  have hbegins : ∀ before, before <+: order → before <+: ids := by
    intro before
    induction before using List.reverseRecOn with
    | nil => exact fun _ => List.nil_prefix
    | append_singleton before id ih =>
      rintro ⟨after, he⟩
      rw [List.append_assoc, List.singleton_append] at he
      obtain ⟨behind, hnext, -⟩ := h.next before id after he.symm
      -- who is at the front after `before` keeps that place in the line that `ids` makes
      have hstill : line w before <+: line w ids := line_prefix (ih ⟨id :: after, he⟩)
      rw [hline, hnext] at hstill
      have hfront : before ++ [id] <+: before ++ id :: behind := ⟨behind, by simp⟩
      exact hfront.trans hstill
  exact (hbegins order (List.prefix_refl order)).eq_of_length hlength

end FollowsLine

/-- Without connections everybody waits from the beginning, as stored. -/
theorem line_of_unconnected {w : Workflow} (h : w.connections = []) (turns : List String) :
    line w turns = w.nodeIds := by
  have hopen : ∀ done id, openInto w done id = 0 := fun done id => by simp [openInto, h]
  have hreleased : ∀ done id, released w done id = [] := fun done id => by
    simp [released, targets, h]
  have hreleases : ∀ done, releases w done turns = [] := by
    induction turns with
    | nil => exact fun _ => rfl
    | cons id rest ih => exact fun done => by rw [releases, hreleased, ih, List.nil_append]
  rw [line, hreleases, List.append_nil, List.filter_eq_self]
  simp [hopen]

/-- Who is next, on every workflow that has an order. It is the node at the front of the line, in
which all nodes that are ready stand as they have come. That node is always the first of them that
is stored if and only if those in the line stand as stored at every turn. The order is the stored
one if and only if the line that the stored one makes is, and it is if there are no connections. -/
theorem next_in_line {w : Workflow} {order : List String} (h : w.topologicalOrder = .ok order) :
    (∀ before id after, order = before ++ id :: after → NextInLine w before id) ∧
      (w.TiesAsStored order ↔
        ∀ turns, turns <+: order → ((line w turns).drop turns.length).Pairwise w.StoredBefore) ∧
      (order = w.nodeIds ↔ line w w.nodeIds = w.nodeIds) ∧
      (w.connections = [] → order = w.nodeIds) := by
  have hfollows := followsLine_of_ok h
  obtain ⟨hw, ha, horder⟩ := sorted_of_ok h
  have hperm : order.Perm w.nodeIds := horder ▸ emitted_final_perm hw ha
  have hstored : order = w.nodeIds ↔ line w w.nodeIds = w.nodeIds := by
    refine ⟨fun he => ?_, hfollows.eq_of_line hperm.length_eq⟩
    rw [← he]
    exact hfollows.line_eq
  exact ⟨hfollows.next, hfollows.tiesAsStored_iff (hperm.nodup_iff.mpr hw.nodup), hstored,
    fun hc => hstored.mpr (line_of_unconnected hc w.nodeIds)⟩

namespace Fork

def node (id : String) : Node := ⟨id, "log", id, Point.origin, .null, true⟩

/-- One node leads to two, to the one that is stored last by the first connection. -/
def fork : Workflow :=
  { Workflow.create ⟨0⟩ ⟨0, 0⟩ "fork" .manual with
    nodes := [node "a", node "b", node "c"]
    connections := [⟨"a-c", "a", "c", none, none⟩, ⟨"a-b", "a", "b", none, none⟩] }

/-- All connections lead forward as the nodes are stored, and of the two nodes that are ready after
the first the one that is stored last is next. -/
theorem next_in_line_fork :
    fork.topologicalOrder = .ok ["a", "c", "b"] ∧
      (∀ c ∈ fork.connections, fork.StoredBefore c.source c.target) ∧
      line fork ["a"] = ["a", "c", "b"] ∧ NextInLine fork ["a"] "c" ∧
      ¬ fork.TiesAsStored ["a", "c", "b"] ∧ line fork fork.nodeIds ≠ fork.nodeIds := by
  have horder : fork.topologicalOrder = .ok ["a", "c", "b"] := rfl
  have hforward : ∀ c ∈ fork.connections, fork.StoredBefore c.source c.target := by
    unfold StoredBefore
    decide
  have hline : line fork ["a"] = ["a", "c", "b"] := by decide
  obtain ⟨hnext, hties, hstored, -⟩ := next_in_line horder
  refine ⟨horder, hforward, hline, hnext ["a"] "c" ["b"] rfl, fun h => ?_, fun h => ?_⟩
  · have hwait := hties.mp h ["a"] ⟨["c", "b"], rfl⟩
    rw [hline] at hwait
    have hbefore : fork.StoredBefore "c" "b" := (List.pairwise_cons.mp hwait).1 "b" (by simp)
    revert hbefore
    unfold StoredBefore
    decide
  · have hids := hstored.mpr h
    revert hids
    decide

end Fork
end Automation.Workflow
