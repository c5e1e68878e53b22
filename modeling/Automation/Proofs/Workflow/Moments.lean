import Automation.Proofs.Workflow.Order

/-!
# What holds while a turn is going on

A turn takes the node at the front of the queue and then closes the connections from it one by one.
`Moment` is a sorting together with the targets of those that are still to be closed. At every
moment the degree of a node is the number of connections into it from nodes without a turn and of
those that are still to be closed, and the queue holds the nodes without a turn whose degree is
zero. So what is closed next is open, and its target neither waits in the queue nor has had its
turn. None of this needs a graph without cycles.
-/
namespace Automation.Workflow

namespace Sorting

/-- A sorting in the middle of a turn, and the targets of the connections that the turn is yet to
close. Nothing is left to close between two turns. -/
structure Moment where
  sorting : Sorting
  closing : List String

/-- The next connection is closed; when there is none, the node at the front of the queue is taken.
Nothing follows once the queue is empty. -/
def Moment.next? (w : Workflow) : Moment → Option Moment
  | ⟨s, target :: rest⟩ => some ⟨s.release target, rest⟩
  | ⟨s, []⟩ =>
    match s.queue with
    | [] => none
    | id :: rest => some ⟨{ s with queue := rest, emitted := s.emitted ++ [id] }, targets w id⟩

/-- One moment follows another at once. -/
def Follows (w : Workflow) (m next : Moment) : Prop := m.next? w = some next

/-- One of the moments of a sorting from its start on. -/
def Passes (w : Workflow) (m : Moment) : Prop :=
  Relation.ReflTransGen (Follows w) ⟨start w, []⟩ m

/-- What the queue and the degrees are before a turn. -/
structure BeforeTurn (w : Workflow) (s : Sorting) : Prop where
  degree_eq : ∀ id ∈ w.nodeIds, id ∉ s.emitted → s.degree id = openInto w s.emitted id
  queue_nodup : s.queue.Nodup
  queued : ∀ id, id ∈ s.queue ↔ id ∈ w.nodeIds ∧ id ∉ s.emitted ∧ s.degree id = 0

/-- A connection into a node can be closed: one is open, and the node has yet to be queued. -/
structure Closable (s : Sorting) (target : String) : Prop where
  degree_pos : 0 < s.degree target
  not_emitted : target ∉ s.emitted
  not_queued : target ∉ s.queue

/-- What holds at every moment. -/
structure InBalance (w : Workflow) (m : Moment) : Prop where
  degree_eq : ∀ id,
    m.sorting.degree id = openInto w m.sorting.emitted id + m.closing.count id
  queued : ∀ id, id ∈ m.sorting.queue ↔
    id ∈ w.nodeIds ∧ id ∉ m.sorting.emitted ∧ m.sorting.degree id = 0
  queue_nodup : m.sorting.queue.Nodup
  emitted_nodup : m.sorting.emitted.Nodup
  emitted_mem : ∀ id ∈ m.sorting.emitted, id ∈ w.nodeIds
  emitted_closed : ∀ id ∈ m.sorting.emitted, m.sorting.degree id = 0
  closing_mem : ∀ id ∈ m.closing, id ∈ w.nodeIds

variable {w : Workflow}

/-- Between two turns the balance at a moment is the one of the sorting. -/
theorem Balanced.inBalance {s : Sorting} (h : Balanced w s) : InBalance w ⟨s, []⟩ where
  degree_eq id := by rw [List.count_nil, Nat.add_zero, h.degree_eq]
  queued id := by rw [h.degree_eq, h.queued]
  queue_nodup := h.queue_nodup
  emitted_nodup := h.emitted_nodup
  emitted_mem := h.emitted_mem
  emitted_closed id hid := by rw [h.degree_eq, h.openInto_emitted hid]
  closing_mem id hid := by cases hid

namespace InBalance

variable {s : Sorting}

/-- The subtraction of a release is one of naturals that is not cut off. -/
theorem closable {target : String} {rest : List String}
    (h : InBalance w ⟨s, target :: rest⟩) : Closable s target := by
  have hpos : 0 < s.degree target := by
    rw [h.degree_eq target, List.count_cons_self]
    exact Nat.succ_pos _
  refine ⟨hpos, fun hid => ?_, fun hid => ?_⟩
  · exact absurd (h.emitted_closed target hid) (Nat.ne_of_gt hpos)
  · exact absurd ((h.queued target).mp hid).2.2 (Nat.ne_of_gt hpos)

theorem beforeTurn (h : InBalance w ⟨s, []⟩) : BeforeTurn w s where
  degree_eq id _ _ := by rw [h.degree_eq, List.count_nil, Nat.add_zero]
  queue_nodup := h.queue_nodup
  queued := h.queued

/-- The node that is taken has its connections to close; no degree changes, since what was open from
it is now to be closed. -/
theorem take (hw : w.IsSound) {id : String} {rest : List String} (hq : s.queue = id :: rest)
    (h : InBalance w ⟨s, []⟩) :
    InBalance w ⟨{ s with queue := rest, emitted := s.emitted ++ [id] }, targets w id⟩ := by
  obtain ⟨hmem, hid, hzero⟩ := (h.queued id).mp (by rw [hq]; exact List.mem_cons_self)
  have hnodup := h.queue_nodup
  rw [hq, List.nodup_cons] at hnodup
  constructor
  · intro x
    change s.degree x = openInto w (s.emitted ++ [id]) x + (targets w id).count x
    rw [← openInto_append w hid x, h.degree_eq, List.count_nil, Nat.add_zero]
  · intro x
    change x ∈ rest ↔ x ∈ w.nodeIds ∧ x ∉ s.emitted ++ [id] ∧ s.degree x = 0
    have hx := h.queued x
    rw [hq, List.mem_cons] at hx
    rw [List.mem_append, List.mem_singleton, not_or]
    constructor
    · intro hr
      obtain ⟨h1, h2, h3⟩ := hx.mp (Or.inr hr)
      exact ⟨h1, ⟨h2, fun he => hnodup.1 (he ▸ hr)⟩, h3⟩
    · rintro ⟨h1, ⟨h2, hne⟩, h3⟩
      exact (hx.mpr ⟨h1, h2, h3⟩).resolve_left hne
  · exact hnodup.2
  · exact h.emitted_nodup.append (List.nodup_singleton id) (by simpa using hid)
  · intro x hx
    rcases List.mem_append.mp hx with hx | hx
    · exact h.emitted_mem x hx
    · exact List.mem_singleton.mp hx ▸ hmem
  · intro x hx
    rcases List.mem_append.mp hx with hx | hx
    · exact h.emitted_closed x hx
    · exact List.mem_singleton.mp hx ▸ hzero
  · intro x hx
    obtain ⟨c, hc, rfl⟩ := List.mem_map.mp hx
    exact hw.target_mem c (List.mem_filter.mp hc).1

/-- A connection is closed: its target loses one from its degree, and is queued if that was the
last. -/
theorem close {target : String} {rest : List String} (h : InBalance w ⟨s, target :: rest⟩) :
    InBalance w ⟨s.release target, rest⟩ := by
  obtain ⟨hpos, hemitted, hqueued⟩ := h.closable
  have hqueue : (s.release target).queue =
      if s.degree target - 1 = 0 then s.queue ++ [target] else s.queue := rfl
  have hdegree : ∀ x, x ≠ target → (s.release target).degree x = s.degree x := by
    intro x hx
    rw [degree_release, if_neg hx.symm, Nat.sub_zero]
  have htarget : (s.release target).degree target = s.degree target - 1 := by
    rw [degree_release, if_pos rfl]
  constructor
  · intro x
    change (s.release target).degree x = openInto w s.emitted x + rest.count x
    have hx := h.degree_eq x
    change s.degree x = openInto w s.emitted x + (target :: rest).count x at hx
    by_cases he : x = target
    · subst he
      rw [List.count_cons_self] at hx
      rw [htarget]
      omega
    · rw [hdegree x he, hx, List.count_cons_of_ne (Ne.symm he)]
  · intro x
    change x ∈ (s.release target).queue ↔
      x ∈ w.nodeIds ∧ x ∉ s.emitted ∧ (s.release target).degree x = 0
    by_cases he : x = target
    · subst he
      rw [htarget, hqueue]
      have hmem := h.closing_mem x List.mem_cons_self
      split
      · next hz => simp [hmem, hemitted, hz]
      · next hz => simp [hqueued, hz]
    · rw [hdegree x he, ← h.queued x, hqueue]
      split
      · simp [he]
      · rfl
  · rw [hqueue]
    split
    · exact h.queue_nodup.append (List.nodup_singleton target) (by simpa using hqueued)
    · exact h.queue_nodup
  · exact h.emitted_nodup
  · exact h.emitted_mem
  · intro x hx
    have hne : x ≠ target := fun he => hemitted (he ▸ hx)
    rw [hdegree x hne]
    exact h.emitted_closed x hx
  · exact fun x hx => h.closing_mem x (List.mem_cons_of_mem _ hx)

theorem next (hw : w.IsSound) {m next : Moment} (h : InBalance w m) (hf : Follows w m next) :
    InBalance w next := by
  obtain ⟨s, closing⟩ := m
  cases closing with
  | cons target rest =>
    cases hf
    exact h.close
  | nil =>
    rw [Follows, Moment.next?] at hf
    split at hf
    · cases hf
    · next id rest hq =>
      cases hf
      exact h.take hw hq

end InBalance

theorem Passes.inBalance (hw : w.IsSound) {m : Moment} (h : Passes w m) : InBalance w m := by
  induction h with
  | refl => exact (balanced_start hw).inBalance
  | tail _ hf ih => exact ih.next hw hf

/-- The moments of a turn end where the turn does. -/
theorem follows_foldl_release (ts : List String) (s : Sorting) :
    Relation.ReflTransGen (Follows w) ⟨s, ts⟩ ⟨ts.foldl release s, []⟩ := by
  induction ts generalizing s with
  | nil => exact .refl
  | cons t rest ih => exact .head rfl (ih (s.release t))

theorem follows_step (s : Sorting) :
    Relation.ReflTransGen (Follows w) ⟨s, []⟩ ⟨step w s, []⟩ := by
  cases hq : s.queue with
  | nil => rw [step_of_nil hq]
  | cons id rest =>
    rw [step_of_cons hq]
    refine .head ?_ (follows_foldl_release (targets w id) _)
    rw [Follows, Moment.next?, hq]

theorem run_succ (turns : Nat) (s : Sorting) : run w (turns + 1) s = step w (run w turns s) := by
  induction turns generalizing s with
  | zero => rfl
  | succ turns ih => exact ih (step w s)

theorem passes_run (turns : Nat) : Passes w ⟨run w turns (start w), []⟩ := by
  induction turns with
  | zero => exact .refl
  | succ turns ih =>
    rw [run_succ]
    exact ih.trans (follows_step _)

/-- What is left of a turn leads to the end of one that the run has. -/
theorem Passes.exists_run {m : Moment} (h : Passes w m) :
    ∃ turns, m.closing.foldl release m.sorting = run w turns (start w) := by
  induction h with
  | refl => exact ⟨0, rfl⟩
  | @tail m next _ hf ih =>
    obtain ⟨turns, he⟩ := ih
    obtain ⟨s, closing⟩ := m
    cases closing with
    | cons target rest =>
      cases hf
      exact ⟨turns, he⟩
    | nil =>
      rw [Follows, Moment.next?] at hf
      split at hf
      · cases hf
      · next id rest hq =>
        cases hf
        refine ⟨turns + 1, ?_⟩
        rw [run_succ, ← he]
        exact (step_of_cons hq).symm

theorem next?_final (hw : w.IsSound) : Moment.next? w ⟨final w, []⟩ = none := by
  rw [Moment.next?, queue_final hw]

/-- Every moment leads to the one with which the sorting ends: there is never more than one that
follows, and none follows the last. -/
theorem Passes.to_final (hw : w.IsSound) {m : Moment} (h : Passes w m) :
    Relation.ReflTransGen (Follows w) m ⟨final w, []⟩ := by
  have hunique : Relator.RightUnique (Follows w) := fun _ _ _ hb hc =>
    Option.some.inj (hb.symm.trans hc)
  have hlast : Passes w ⟨final w, []⟩ := passes_run w.nodes.length
  rcases Relation.ReflTransGen.total_of_right_unique hunique h hlast with hm | hm
  · exact hm
  · rcases hm.cases_head with rfl | ⟨next, hf, -⟩
    · exact .refl
    · rw [Follows, next?_final hw] at hf
      cases hf

/-- The loop on every graph that passes the check, with cycles or without. Its moments between two
turns are those of the run. Before every turn the degrees of the nodes without one are the numbers
of connections from such nodes, and the queue holds those of degree zero once each. Whenever a
connection is closed one is open, and its target has had no turn and is not queued. No node has two
turns, none is queued after its turn, and all moments lead to the end of as many turns as there are
nodes, after which nothing follows. -/
theorem sorting_moments (h : w.checkGraph = .ok ()) :
    (∀ s, Passes w ⟨s, []⟩ ↔ ∃ turns, s = run w turns (start w)) ∧
      (∀ turns, BeforeTurn w (run w turns (start w))) ∧
      (∀ s target rest, Passes w ⟨s, target :: rest⟩ → Closable s target) ∧
      (∀ m, Passes w m →
        m.sorting.emitted.Nodup ∧ m.sorting.emitted ⊆ w.nodeIds ∧
          m.sorting.emitted.Disjoint m.sorting.queue ∧
          Relation.ReflTransGen (Follows w) m ⟨run w w.nodes.length (start w), []⟩) ∧
      Moment.next? w ⟨run w w.nodes.length (start w), []⟩ = none := by
  have hw := checkGraph_eq_ok_iff.mp h
  refine ⟨fun s => ⟨fun hs => hs.exists_run, ?_⟩, fun turns => ?_, fun s target rest hs => ?_,
    fun m hm => ?_, next?_final hw⟩
  · rintro ⟨turns, rfl⟩
    exact passes_run turns
  · exact ((passes_run turns).inBalance hw).beforeTurn
  · exact (hs.inBalance hw).closable
  · have hb := hm.inBalance hw
    refine ⟨hb.emitted_nodup, hb.emitted_mem, fun id he hq => ?_, hm.to_final hw⟩
    exact ((hb.queued id).mp hq).2.1 he

namespace Tangle

def node (id : String) : Node := ⟨id, "log", id, Point.origin, .null, true⟩

/-- Two connections lead from the first node into a ring of two, and the last node leads to
itself. -/
def tangle : Workflow :=
  { Workflow.create ⟨0⟩ ⟨0, 0⟩ "tangle" .manual with
    nodes := [node "a", node "b", node "c", node "d"]
    connections := [⟨"a-b", "a", "b", none, none⟩, ⟨"a-b again", "a", "b", none, none⟩,
      ⟨"b-c", "b", "c", none, none⟩, ⟨"c-b", "c", "b", none, none⟩,
      ⟨"d-d", "d", "d", none, none⟩] }

/-- The first node closes its two connections into the ring, of which the second is still open when
the first is closed. The one within the ring stays open, so nothing else has a turn. -/
theorem sorting_moments_tangle :
    tangle.checkGraph = .ok () ∧
      (start tangle).queue = ["a"] ∧ (start tangle).degree "b" = 3 ∧
      (∃ s, Passes tangle ⟨s, ["b"]⟩ ∧ Closable s "b" ∧ s.degree "b" = 2) ∧
      BeforeTurn tangle (run tangle 1 (start tangle)) ∧
      (run tangle 1 (start tangle)).degree "b" = openInto tangle ["a"] "b" ∧
      openInto tangle ["a"] "b" = 1 ∧
      (run tangle 4 (start tangle)).emitted = ["a"] ∧
      Moment.next? tangle ⟨run tangle 4 (start tangle), []⟩ = none := by
  have hcheck : tangle.checkGraph = .ok () := by decide +kernel
  obtain ⟨-, hbefore, hclosable, -, hlast⟩ := sorting_moments hcheck
  have hmiddle : Passes tangle
      ⟨release { start tangle with queue := [], emitted := ["a"] } "b", ["b"]⟩ :=
    .tail (.tail .refl rfl) rfl
  have hturn : (run tangle 1 (start tangle)).degree "b" = openInto tangle ["a"] "b" :=
    (hbefore 1).degree_eq "b" (by decide +kernel) (by decide +kernel)
  exact ⟨hcheck, by decide +kernel, by decide +kernel,
    ⟨_, hmiddle, hclosable _ _ _ hmiddle, by decide +kernel⟩, hbefore 1, hturn,
    by decide +kernel, by decide +kernel, hlast⟩

end Tangle
end Sorting
end Automation.Workflow
