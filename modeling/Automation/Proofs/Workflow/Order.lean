import Automation.Proofs.Workflow.Sorting
import Mathlib.Data.Set.Finite.List
import Mathlib.Logic.Relation
import Mathlib.Order.WellFounded

/-!
# When a workflow has an order

A graph is refused for the first identifier that comes a second time, else for the first connection
with a missing end, else for a cycle. A cycle is a way along connections that returns to where it
started. Every other graph is sorted: the order lists its nodes, and every connection leads forward
in it. The nodes that a sorting leaves behind all have an open connection from another such node,
which is where a cycle comes from.
-/
namespace Automation.Workflow

/-- There is a connection from one node to the other. -/
def Leads (w : Workflow) (a b : String) : Prop :=
  ∃ c ∈ w.connections, c.source = a ∧ c.target = b

def HasCycle (w : Workflow) : Prop := ∃ id, Relation.TransGen w.Leads id id

/-- The identifier that is the first of the list to come a second time. -/
def FirstRepeated (ids : List String) (id : String) : Prop :=
  ∃ before after, ids = before ++ id :: after ∧ before.Nodup ∧ id ∈ before

/-- An end of a connection is no node; the source counts first. -/
def Misses (ids : List String) (c : Connection) (id : String) : Connection.Side → Prop
  | .source => c.source = id ∧ id ∉ ids
  | .target => c.source ∈ ids ∧ c.target = id ∧ id ∉ ids

/-- The missing end of the first connection that has one. -/
def FirstMissing (ids : List String) (connections : List Connection) (id : String)
    (side : Connection.Side) : Prop :=
  ∃ before c after, connections = before ++ c :: after ∧
    (∀ d ∈ before, d.source ∈ ids ∧ d.target ∈ ids) ∧ Misses ids c id side

theorem repeated?_eq_none_iff {seen ids : List String} :
    repeated? seen ids = none ↔ ids.Nodup ∧ ∀ id ∈ ids, id ∉ seen := by
  induction ids generalizing seen with
  | nil => simp [repeated?]
  | cons id rest ih =>
    by_cases hid : id ∈ seen
    · simp [repeated?, hid]
    · simp only [repeated?, List.contains_eq_mem, hid, decide_false, Bool.false_eq_true, ↓reduceIte,
        ih, List.nodup_cons, List.mem_cons, not_or, forall_eq_or_imp, not_false_eq_true, true_and]
      constructor
      · rintro ⟨hn, hs⟩
        exact ⟨⟨fun hr => (hs id hr).1 rfl, hn⟩, fun x hx => (hs x hx).2⟩
      · rintro ⟨⟨hr, hn⟩, hs⟩
        exact ⟨hn, fun x hx => ⟨fun he => hr (he ▸ hx), hs x hx⟩⟩

theorem firstRepeated_of_repeated? {seen ids : List String} {id : String}
    (h : repeated? seen ids = some id) :
    ∃ before after, ids = before ++ id :: after ∧
      (before.Nodup ∧ ∀ x ∈ before, x ∉ seen) ∧ (id ∈ seen ∨ id ∈ before) := by
  induction ids generalizing seen with
  | nil => simp [repeated?] at h
  | cons first rest ih =>
    rw [repeated?] at h
    split at h
    · next hs =>
      cases h
      exact ⟨[], rest, rfl, ⟨List.nodup_nil, by simp⟩, Or.inl (by simpa using hs)⟩
    · next hs =>
      obtain ⟨before, after, rfl, ⟨hn, hb⟩, hid⟩ := ih h
      refine ⟨first :: before, after, rfl, ⟨List.nodup_cons.mpr ⟨?_, hn⟩, ?_⟩, ?_⟩
      · intro hf
        exact hb first hf List.mem_cons_self
      · intro x hx
        rcases List.mem_cons.mp hx with rfl | hx
        · simpa using hs
        · exact fun hx' => hb x hx (List.mem_cons_of_mem _ hx')
      · rcases hid with hid | hid
        · rcases List.mem_cons.mp hid with rfl | hid
          · exact Or.inr List.mem_cons_self
          · exact Or.inl hid
        · exact Or.inr (List.mem_cons_of_mem _ hid)

theorem repeated?_append {seen before after : List String} {id : String} (hn : before.Nodup)
    (hb : ∀ x ∈ before, x ∉ seen) (hid : id ∈ seen ∨ id ∈ before) :
    repeated? seen (before ++ id :: after) = some id := by
  induction before generalizing seen with
  | nil => simp [repeated?, hid.resolve_right List.not_mem_nil]
  | cons first rest ih =>
    obtain ⟨hf, hn⟩ := List.nodup_cons.mp hn
    have hs := hb first List.mem_cons_self
    rw [List.cons_append, repeated?, if_neg (by simpa using hs)]
    apply ih hn
    · intro x hx
      rw [List.mem_cons, not_or]
      exact ⟨fun he => hf (he ▸ hx), hb x (List.mem_cons_of_mem _ hx)⟩
    · rw [List.mem_cons] at hid ⊢
      tauto

theorem repeated?_eq_some_iff {ids : List String} {id : String} :
    repeated? [] ids = some id ↔ FirstRepeated ids id := by
  constructor
  · intro h
    obtain ⟨before, after, he, ⟨hn, -⟩, hid⟩ := firstRepeated_of_repeated? h
    exact ⟨before, after, he, hn, hid.resolve_left List.not_mem_nil⟩
  · rintro ⟨before, after, rfl, hn, hid⟩
    exact repeated?_append hn (fun _ _ => List.not_mem_nil) (Or.inr hid)

theorem danglingEnd?_eq_none_iff {ids : List String} {cs : List Connection} :
    danglingEnd? ids cs = none ↔ ∀ c ∈ cs, c.source ∈ ids ∧ c.target ∈ ids := by
  induction cs with
  | nil => simp [danglingEnd?]
  | cons c rest ih =>
    by_cases hs : c.source ∈ ids <;> by_cases ht : c.target ∈ ids <;>
      simp [danglingEnd?, hs, ht, ih]

theorem danglingEnd?_append {ids : List String} {before rest : List Connection}
    (h : ∀ c ∈ before, c.source ∈ ids ∧ c.target ∈ ids) :
    danglingEnd? ids (before ++ rest) = danglingEnd? ids rest := by
  induction before with
  | nil => rfl
  | cons c before ih =>
    obtain ⟨hs, ht⟩ := h c List.mem_cons_self
    simpa [danglingEnd?, hs, ht] using ih fun d hd => h d (List.mem_cons_of_mem _ hd)

theorem danglingEnd?_eq_some_iff {ids : List String} {cs : List Connection} {id : String}
    {side : Connection.Side} :
    danglingEnd? ids cs = some (.unknownNode id side) ↔ FirstMissing ids cs id side := by
  constructor
  · intro h
    induction cs with
    | nil => cases h
    | cons c rest ih =>
      rw [danglingEnd?] at h
      split at h
      · next hs =>
        cases h
        exact ⟨[], c, rest, rfl, by simp, rfl, by simpa using hs⟩
      · next hs =>
        split at h
        · next ht =>
          cases h
          exact ⟨[], c, rest, rfl, by simp, by simpa using hs, rfl, by simpa using ht⟩
        · next ht =>
          obtain ⟨before, d, after, rfl, hb, hd⟩ := ih h
          refine ⟨c :: before, d, after, rfl, ?_, hd⟩
          rw [List.forall_mem_cons]
          exact ⟨⟨by simpa using hs, by simpa using ht⟩, hb⟩
  · rintro ⟨before, c, after, rfl, hb, hc⟩
    rw [danglingEnd?_append hb, danglingEnd?]
    cases side with
    | source =>
      obtain ⟨rfl, hc⟩ := hc
      simp [hc]
    | target =>
      obtain ⟨hs, rfl, ht⟩ := hc
      simp [hs, ht]

/-- The only thing that can be wrong with a connection is an end. -/
theorem unknownNode_of_danglingEnd? {ids : List String} {cs : List Connection} {e : GraphError}
    (h : danglingEnd? ids cs = some e) : ∃ id side, e = .unknownNode id side := by
  induction cs with
  | nil => cases h
  | cons c rest ih =>
    rw [danglingEnd?] at h
    split at h
    · cases h; exact ⟨_, _, rfl⟩
    · split at h
      · cases h; exact ⟨_, _, rfl⟩
      · exact ih h

theorem checkGraph_eq_ok_iff {w : Workflow} : w.checkGraph = .ok () ↔ w.IsSound := by
  rw [checkGraph]
  cases hr : repeated? [] w.nodeIds with
  | some id =>
    refine ⟨fun h => (by cases h), fun hw => ?_⟩
    rw [repeated?_eq_none_iff.mpr ⟨hw.nodup, fun _ _ => List.not_mem_nil⟩] at hr
    cases hr
  | none =>
    have hn := (repeated?_eq_none_iff.mp hr).1
    cases hd : danglingEnd? w.nodeIds w.connections with
    | some e =>
      refine ⟨fun h => (by cases h), fun hw => ?_⟩
      rw [danglingEnd?_eq_none_iff.mpr fun c hc => ⟨hw.source_mem c hc, hw.target_mem c hc⟩] at hd
      cases hd
    | none =>
      have he := danglingEnd?_eq_none_iff.mp hd
      exact ⟨fun _ => ⟨hn, fun c hc => (he c hc).1, fun c hc => (he c hc).2⟩, fun _ => rfl⟩

theorem checkGraph_eq_duplicate_iff {w : Workflow} {id : String} :
    w.checkGraph = .error (.duplicateNode id) ↔ FirstRepeated w.nodeIds id := by
  rw [← repeated?_eq_some_iff, checkGraph]
  cases hr : repeated? [] w.nodeIds with
  | some x => simp
  | none =>
    refine ⟨fun h => ?_, fun h => (by cases h)⟩
    cases hd : danglingEnd? w.nodeIds w.connections with
    | some e =>
      obtain ⟨x, side, rfl⟩ := unknownNode_of_danglingEnd? hd
      rw [hd] at h
      cases h
    | none => rw [hd] at h; cases h

theorem checkGraph_eq_unknown_iff {w : Workflow} (hn : w.nodeIds.Nodup) {id : String}
    {side : Connection.Side} :
    w.checkGraph = .error (.unknownNode id side) ↔
      FirstMissing w.nodeIds w.connections id side := by
  rw [← danglingEnd?_eq_some_iff, checkGraph,
    repeated?_eq_none_iff.mpr ⟨hn, fun _ _ => List.not_mem_nil⟩]
  cases hd : danglingEnd? w.nodeIds w.connections <;> simp

theorem checkGraph_ne_cycle {w : Workflow} : w.checkGraph ≠ .error .cycle := by
  rw [checkGraph]
  cases repeated? [] w.nodeIds with
  | some id => simp
  | none =>
    cases hd : danglingEnd? w.nodeIds w.connections with
    | some e =>
      obtain ⟨x, side, rfl⟩ := unknownNode_of_danglingEnd? hd
      simp
    | none => simp

/-- On a graph without cycles a set of nodes that is not empty has one without a predecessor in
the set. -/
theorem exists_first_of_acyclic {w : Workflow} (hw : w.IsSound) (ha : ¬ w.HasCycle)
    (left : String → Prop) (hl : ∃ id ∈ w.nodeIds, left id) :
    ∃ id ∈ w.nodeIds, left id ∧ ∀ a, w.Leads a id → ¬ left a := by
  let before (a b : {id // id ∈ w.nodeIds}) : Prop := Relation.TransGen w.Leads a.1 b.1
  have hfinite : Finite {id // id ∈ w.nodeIds} := w.nodeIds.finite_toSet
  have htrans : IsTrans _ before := ⟨fun _ _ _ h h' => h.trans h'⟩
  have hirrefl : Std.Irrefl before := ⟨fun id h => ha ⟨id.1, h⟩⟩
  have hwf : WellFounded before := Finite.wellFounded_of_trans_of_irrefl before
  obtain ⟨id, hid, hlid⟩ := hl
  obtain ⟨m, hm, hmin⟩ := hwf.has_min {a | left a.1} ⟨⟨id, hid⟩, hlid⟩
  refine ⟨m.1, m.2, hm, ?_⟩
  rintro a ⟨c, hc, rfl, ht⟩ hla
  exact hmin ⟨c.source, hw.source_mem c hc⟩ hla (.single ⟨c, hc, rfl, ht⟩)

namespace Sorting

/-- A sorting of a graph without cycles leaves no node behind. -/
theorem emitted_final_perm {w : Workflow} (hw : w.IsSound) (ha : ¬ w.HasCycle) :
    (final w).emitted.Perm w.nodeIds := by
  have h := balanced_final hw
  have hall : ∀ id ∈ w.nodeIds, id ∈ (final w).emitted := by
    by_contra hne
    push Not at hne
    obtain ⟨id, hid, hleft, hfirst⟩ :=
      exists_first_of_acyclic hw ha (fun id => id ∉ (final w).emitted) hne
    -- all predecessors have had their turn, so the node would be in the queue
    have hz : openInto w (final w).emitted id = 0 := by
      rw [openInto_eq_zero]
      intro c hc ht
      exact not_not.mp (hfirst c.source ⟨c, hc, rfl, ht⟩)
    have hq := (h.queued id).mpr ⟨hid, hleft, hz⟩
    rw [queue_final hw] at hq
    cases hq
  exact (List.perm_ext_iff_of_nodup h.emitted_nodup hw.nodup).mpr
    fun id => ⟨h.emitted_mem id, hall id⟩

theorem idxOf_lt_of_leads {w : Workflow} {s : Sorting} (h : Balanced w s) {a b : String}
    (hab : w.Leads a b) (hb : b ∈ s.emitted) : s.emitted.idxOf a < s.emitted.idxOf b := by
  obtain ⟨before, after, he⟩ := List.append_of_mem hb
  obtain ⟨c, hc, rfl, ht⟩ := hab
  have ha := openInto_eq_zero.mp (h.led before b after he) c hc ht
  have hnb : b ∉ before := by
    have hn := h.emitted_nodup
    rw [he] at hn
    exact fun hm => absurd rfl ((List.nodup_append.mp hn).2.2 b hm b List.mem_cons_self)
  rw [he, List.idxOf_append_of_mem ha, List.idxOf_append_of_notMem hnb, List.idxOf_cons_self]
  exact Nat.lt_of_lt_of_le (List.idxOf_lt_length_iff.mpr ha) (Nat.le_add_right _ _)

end Sorting

/-- An order in which all connections lead forward leaves no room for a cycle. -/
theorem not_hasCycle_of_forward {w : Workflow} (place : String → Nat)
    (h : ∀ a b, w.Leads a b → place a < place b) : ¬ w.HasCycle := by
  rintro ⟨id, hid⟩
  have hlt : ∀ a b, Relation.TransGen w.Leads a b → place a < place b := by
    intro a b hab
    induction hab with
    | single hl => exact h _ _ hl
    | tail _ hl ih => exact ih.trans (h _ _ hl)
  exact absurd (hlt id id hid) (lt_irrefl _)

theorem topologicalOrder_of_check_error {w : Workflow} {e : GraphError}
    (h : w.checkGraph = .error e) : w.topologicalOrder = .error e := by
  rw [topologicalOrder, h]
  rfl

theorem topologicalOrder_of_sound {w : Workflow} (hw : w.IsSound) :
    w.topologicalOrder =
      if (Sorting.final w).emitted.length = w.nodes.length then .ok (Sorting.final w).emitted
      else .error .cycle := by
  rw [topologicalOrder, checkGraph_eq_ok_iff.mpr hw]
  rfl

theorem length_emitted_final_iff {w : Workflow} (hw : w.IsSound) :
    (Sorting.final w).emitted.length = w.nodes.length ↔ ¬ w.HasCycle := by
  have h := Sorting.balanced_final hw
  have hlen : w.nodeIds.length = w.nodes.length := List.length_map _
  constructor
  · intro hl
    have hperm := (h.emitted_nodup.subperm h.emitted_mem).perm_of_length_le
      (by rw [hlen]; exact hl.ge)
    apply not_hasCycle_of_forward fun id => (Sorting.final w).emitted.idxOf id
    rintro a b ⟨c, hc, rfl, rfl⟩
    exact Sorting.idxOf_lt_of_leads h ⟨c, hc, rfl, rfl⟩ (hperm.mem_iff.mpr (hw.target_mem c hc))
  · intro ha
    rw [(Sorting.emitted_final_perm hw ha).length_eq, hlen]

theorem topologicalOrder_eq_error_iff {w : Workflow} {e : GraphError} (he : e ≠ .cycle) :
    w.topologicalOrder = .error e ↔ w.checkGraph = .error e := by
  cases hc : w.checkGraph with
  | error e' =>
    rw [topologicalOrder_of_check_error hc]
    simp
  | ok u =>
    rw [topologicalOrder_of_sound (checkGraph_eq_ok_iff.mp hc)]
    split
    · simp
    · simp [he.symm]

theorem topologicalOrder_eq_cycle_iff {w : Workflow} :
    w.topologicalOrder = .error .cycle ↔ w.IsSound ∧ w.HasCycle := by
  cases hc : w.checkGraph with
  | error e =>
    rw [topologicalOrder_of_check_error hc]
    constructor
    · rintro ⟨⟩
      exact absurd hc checkGraph_ne_cycle
    · rintro ⟨hw, -⟩
      rw [checkGraph_eq_ok_iff.mpr hw] at hc
      cases hc
  | ok u =>
    have hw := checkGraph_eq_ok_iff.mp hc
    have hl := length_emitted_final_iff hw
    rw [topologicalOrder_of_sound hw]
    by_cases ha : w.HasCycle
    · rw [if_neg (hl.not.mpr (not_not.mpr ha))]
      exact ⟨fun _ => ⟨hw, ha⟩, fun _ => rfl⟩
    · rw [if_pos (hl.mpr ha)]
      exact ⟨fun h => (by cases h), fun h => absurd h.2 ha⟩

/-- A sound graph without cycles is put in order. -/
theorem topologicalOrder_of_acyclic {w : Workflow} (hw : w.IsSound) (ha : ¬ w.HasCycle) :
    ∃ order, w.topologicalOrder = .ok order ∧ order.Perm w.nodeIds ∧
      ∀ c ∈ w.connections, order.idxOf c.source < order.idxOf c.target := by
  have hperm := Sorting.emitted_final_perm hw ha
  refine ⟨(Sorting.final w).emitted, ?_, hperm, ?_⟩
  · rw [topologicalOrder_of_sound hw, if_pos ((length_emitted_final_iff hw).mpr ha)]
  · intro c hc
    exact Sorting.idxOf_lt_of_leads (Sorting.balanced_final hw) ⟨c, hc, rfl, rfl⟩
      (hperm.mem_iff.mpr (hw.target_mem c hc))

/-- An order that is found is what a sorting makes of a sound graph without cycles. -/
theorem sorted_of_ok {w : Workflow} {order : List String} (h : w.topologicalOrder = .ok order) :
    w.IsSound ∧ ¬ w.HasCycle ∧ order = (Sorting.final w).emitted := by
  cases hc : w.checkGraph with
  | error e =>
    rw [topologicalOrder_of_check_error hc] at h
    cases h
  | ok u =>
    have hw := checkGraph_eq_ok_iff.mp hc
    have ha : ¬ w.HasCycle := fun ha => by
      rw [topologicalOrder_eq_cycle_iff.mpr ⟨hw, ha⟩] at h
      cases h
    rw [topologicalOrder_of_sound hw, if_pos ((length_emitted_final_iff hw).mpr ha)] at h
    exact ⟨hw, ha, (Except.ok.inj h).symm⟩

theorem exists_firstRepeated_iff {ids : List String} :
    (∃ id, FirstRepeated ids id) ↔ ¬ ids.Nodup := by
  have hn : repeated? [] ids = none ↔ ids.Nodup := by simp [repeated?_eq_none_iff]
  rw [← hn, ← ne_eq, Option.ne_none_iff_exists']
  exact exists_congr fun id => repeated?_eq_some_iff.symm

theorem exists_firstMissing_iff {ids : List String} {cs : List Connection} :
    (∃ id side, FirstMissing ids cs id side) ↔
      ∃ c ∈ cs, c.source ∉ ids ∨ c.target ∉ ids := by
  have hn : ¬ danglingEnd? ids cs = none ↔ ∃ c ∈ cs, c.source ∉ ids ∨ c.target ∉ ids := by
    rw [danglingEnd?_eq_none_iff]
    push Not
    simp only [imp_iff_not_or]
  rw [← hn, ← ne_eq, Option.ne_none_iff_exists']
  constructor
  · rintro ⟨id, side, h⟩
    exact ⟨_, danglingEnd?_eq_some_iff.mpr h⟩
  · rintro ⟨e, h⟩
    obtain ⟨id, side, rfl⟩ := unknownNode_of_danglingEnd? h
    exact ⟨id, side, danglingEnd?_eq_some_iff.mp h⟩

/-- The answer for every workflow. A repeated identifier is told before a missing end, and a missing
end before a cycle; what has none of these is put in order. -/
theorem topologicalOrder_answers (w : Workflow) :
    (∀ id, w.topologicalOrder = .error (.duplicateNode id) ↔ FirstRepeated w.nodeIds id) ∧
    ((∃ id, w.topologicalOrder = .error (.duplicateNode id)) ↔ ¬ w.nodeIds.Nodup) ∧
    (∀ id side, w.topologicalOrder = .error (.unknownNode id side) ↔
      w.nodeIds.Nodup ∧ FirstMissing w.nodeIds w.connections id side) ∧
    ((∃ id side, w.topologicalOrder = .error (.unknownNode id side)) ↔
      w.nodeIds.Nodup ∧ ∃ c ∈ w.connections, c.source ∉ w.nodeIds ∨ c.target ∉ w.nodeIds) ∧
    (w.topologicalOrder = .error .cycle ↔ w.IsSound ∧ w.HasCycle) ∧
    ((∃ order, w.topologicalOrder = .ok order ∧ order.Perm w.nodeIds ∧
        ∀ c ∈ w.connections, order.idxOf c.source < order.idxOf c.target) ↔
      w.IsSound ∧ ¬ w.HasCycle) := by
  have hdup : ∀ id, w.topologicalOrder = .error (.duplicateNode id) ↔
      FirstRepeated w.nodeIds id := fun id => by
    rw [topologicalOrder_eq_error_iff (by simp), checkGraph_eq_duplicate_iff]
  have hmiss : ∀ id side, w.topologicalOrder = .error (.unknownNode id side) ↔
      w.nodeIds.Nodup ∧ FirstMissing w.nodeIds w.connections id side := fun id side => by
    by_cases hn : w.nodeIds.Nodup
    · rw [topologicalOrder_eq_error_iff (by simp), checkGraph_eq_unknown_iff hn]
      exact (and_iff_right hn).symm
    · obtain ⟨x, hx⟩ := exists_firstRepeated_iff.mpr hn
      rw [(hdup x).mpr hx]
      simp [hn]
  refine ⟨hdup, ?_, hmiss, ?_, topologicalOrder_eq_cycle_iff, ?_⟩
  · rw [← exists_firstRepeated_iff]
    exact exists_congr hdup
  · rw [← exists_firstMissing_iff]
    simp only [hmiss, exists_and_left]
  · constructor
    · rintro ⟨order, h, -, -⟩
      have hw : w.IsSound := by
        cases hc : w.checkGraph with
        | ok u => exact checkGraph_eq_ok_iff.mp hc
        | error e => rw [topologicalOrder_of_check_error hc] at h; cases h
      refine ⟨hw, fun ha => ?_⟩
      rw [topologicalOrder_eq_cycle_iff.mpr ⟨hw, ha⟩] at h
      cases h
    · rintro ⟨hw, ha⟩
      exact topologicalOrder_of_acyclic hw ha

end Automation.Workflow
