import Automation.Workflow.Graph
import Mathlib.Data.List.Dedup
import Mathlib.Data.List.Nodup
import Mathlib.Data.List.Perm.Subperm

/-!
# The queue of a sorting

`openInto` counts the connections into a node whose source has not had its turn. Between two turns
the kept degrees are these counts, and the queue holds exactly the waiting nodes whose count is
zero. This is `Balanced`; it holds at the start of every graph, cyclic or not, and every turn keeps
it. A run of as many turns as there are nodes ends with an empty queue.
-/
namespace Automation.Workflow

/-- How many connections lead into a node from outside a list of nodes. -/
def openInto (w : Workflow) (done : List String) (id : String) : Nat :=
  w.connections.countP fun c => c.target = id ∧ c.source ∉ done

/-- The node identifiers are distinct and both ends of every connection are nodes. -/
structure IsSound (w : Workflow) : Prop where
  nodup : w.nodeIds.Nodup
  source_mem : ∀ c ∈ w.connections, c.source ∈ w.nodeIds
  target_mem : ∀ c ∈ w.connections, c.target ∈ w.nodeIds

theorem openInto_eq_zero {w : Workflow} {done : List String} {id : String} :
    openInto w done id = 0 ↔ ∀ c ∈ w.connections, c.target = id → c.source ∈ done := by
  simp [openInto, List.countP_eq_zero]

theorem openInto_mono {w : Workflow} {done more : List String} {id : String}
    (h : done ⊆ more) (hz : openInto w done id = 0) : openInto w more id = 0 := by
  rw [openInto_eq_zero] at hz ⊢
  intro c hc ht
  exact h (hz c hc ht)

theorem mem_nodeIds_of_openInto {w : Workflow} (hw : w.IsSound) {done : List String} {id : String}
    (h : 0 < openInto w done id) : id ∈ w.nodeIds := by
  obtain ⟨c, hc, hp⟩ := List.countP_pos_iff.mp h
  simp only [decide_eq_true_eq] at hp
  exact hp.1 ▸ hw.target_mem c hc

namespace Sorting

theorem count_targets (w : Workflow) (id x : String) :
    (targets w id).count x =
      w.connections.countP fun c => c.source = id ∧ c.target = x := by
  rw [targets, List.count, List.countP_map, List.countP_filter]
  congr 1
  funext c
  by_cases hs : c.source = id <;> by_cases ht : c.target = x <;> simp [hs, ht]

/-- A node that gets its turn closes its own connections and no others. -/
theorem openInto_append (w : Workflow) {done : List String} {id : String} (hid : id ∉ done)
    (x : String) :
    openInto w done x = openInto w (done ++ [id]) x + (targets w id).count x := by
  rw [count_targets, openInto, openInto]
  induction w.connections with
  | nil => rfl
  | cons c rest ih =>
    simp only [List.countP_cons, ih]
    by_cases ht : c.target = x <;> by_cases hs : c.source = id
    · simp [ht, hs, hid]; omega
    · by_cases hd : c.source ∈ done <;> simp [ht, hs, hd]; omega
    · simp [ht]
    · simp [ht]

theorem degree_count (s : Sorting) (c : Connection) (id : String) :
    (s.count c).degree id = s.degree id + if c.target = id then 1 else 0 := by
  unfold degree count
  rw [Dict.get?_insert]
  split
  · next h => subst h; rfl
  · rfl

theorem degree_foldl_count (cs : List Connection) (s : Sorting) (id : String) :
    (cs.foldl count s).degree id = s.degree id + cs.countP fun c => c.target = id := by
  induction cs generalizing s with
  | nil => rfl
  | cons c rest ih =>
    rw [List.foldl_cons, ih, degree_count, List.countP_cons]
    simp only [decide_eq_true_eq]
    omega

theorem degree_start (w : Workflow) (id : String) : (start w).degree id = openInto w [] id := by
  change (w.connections.foldl count ⟨Dict.empty, [], []⟩).degree id = _
  rw [degree_foldl_count]
  simp [degree, openInto]

theorem emitted_start (w : Workflow) : (start w).emitted = [] := by
  have h : ∀ (cs : List Connection) (s : Sorting), (cs.foldl count s).emitted = s.emitted := by
    intro cs
    induction cs with
    | nil => intro s; rfl
    | cons c rest ih => intro s; exact ih (s.count c)
  exact h w.connections _

theorem degree_release (s : Sorting) (target id : String) :
    (s.release target).degree id = s.degree id - if target = id then 1 else 0 := by
  change (((s.inDegree.insert target (s.degree target - 1)).get? id).getD 0) = _
  rw [Dict.get?_insert]
  split
  · next h => subst h; rfl
  · rfl

theorem degree_foldl_release (ts : List String) (s : Sorting) (id : String) :
    (ts.foldl release s).degree id = s.degree id - ts.count id := by
  induction ts generalizing s with
  | nil => rfl
  | cons t rest ih =>
    rw [List.foldl_cons, ih, degree_release, List.count_cons]
    simp only [beq_iff_eq]
    omega

theorem emitted_foldl_release (ts : List String) (s : Sorting) :
    (ts.foldl release s).emitted = s.emitted := by
  induction ts generalizing s with
  | nil => rfl
  | cons t rest ih => exact ih (s.release t)

/-- As long as no node is released more often than it has open connections, those whose last
connection closes are queued, each where it is released for the last time. -/
theorem queue_foldl_release (ts : List String) (s : Sorting)
    (hle : ∀ id, ts.count id ≤ s.degree id) :
    (ts.foldl release s).queue =
      s.queue ++ ts.dedup.filter fun id => s.degree id = ts.count id := by
  induction ts generalizing s with
  | nil => simp
  | cons t rest ih =>
    have hrest : ∀ id, rest.count id ≤ (s.release t).degree id := by
      intro id
      have h := hle id
      rw [List.count_cons] at h
      rw [degree_release]
      simp only [beq_iff_eq] at h
      omega
    have hdeg : ∀ id, (s.release t).degree id = rest.count id ↔
        s.degree id = (t :: rest).count id := by
      intro id
      have h := hle id
      rw [List.count_cons] at h ⊢
      rw [degree_release]
      simp only [beq_iff_eq] at h ⊢
      by_cases hid : t = id
      · subst hid; simp only [↓reduceIte] at h ⊢; omega
      · simp only [hid, ↓reduceIte]; omega
    have hqueue : (s.release t).queue =
        if s.degree t - 1 = 0 then s.queue ++ [t] else s.queue := rfl
    have ht := hle t
    rw [List.count_cons_self] at ht
    rw [List.foldl_cons, ih (s.release t) hrest]
    simp only [hdeg]
    by_cases hmem : t ∈ rest
    · -- another connection into `t` closes later
      have hpos := List.count_pos_iff.mpr hmem
      rw [hqueue, if_neg (by omega), List.dedup_cons_of_mem hmem]
    · have hzero := List.count_eq_zero.mpr hmem
      have hone : s.degree t = (t :: rest).count t ↔ s.degree t - 1 = 0 := by
        rw [List.count_cons_self]
        omega
      rw [hqueue, List.dedup_cons_of_notMem hmem, List.filter_cons]
      simp only [hone, decide_eq_true_eq]
      split
      · rw [List.append_assoc, List.singleton_append]
      · rfl

/-- What holds of a sorting between two turns. -/
structure Balanced (w : Workflow) (s : Sorting) : Prop where
  degree_eq : ∀ id, s.degree id = openInto w s.emitted id
  queued : ∀ id, id ∈ s.queue ↔
    id ∈ w.nodeIds ∧ id ∉ s.emitted ∧ openInto w s.emitted id = 0
  queue_nodup : s.queue.Nodup
  emitted_nodup : s.emitted.Nodup
  emitted_mem : ∀ id ∈ s.emitted, id ∈ w.nodeIds
  led : ∀ before id after, s.emitted = before ++ id :: after → openInto w before id = 0

namespace Balanced

variable {w : Workflow} {s : Sorting}

theorem openInto_emitted (h : Balanced w s) {id : String} (hid : id ∈ s.emitted) :
    openInto w s.emitted id = 0 := by
  obtain ⟨before, after, he⟩ := List.append_of_mem hid
  have hz := h.led before id after he
  rw [he]
  exact openInto_mono (List.subset_append_left _ _) hz

/-- No release happens at degree zero. -/
theorem count_targets_le (h : Balanced w s) {id : String} (hid : id ∉ s.emitted) (x : String) :
    (targets w id).count x ≤ s.degree x := by
  rw [h.degree_eq, openInto_append w hid]
  omega

end Balanced

theorem balanced_start {w : Workflow} (hw : w.IsSound) : Balanced w (start w) := by
  have he := emitted_start w
  have hq : (start w).queue = w.nodeIds.filter fun id => (start w).degree id = 0 := rfl
  constructor
  · intro id
    rw [he, degree_start]
  · intro id
    rw [hq, he, List.mem_filter, degree_start]
    simp
  · rw [hq]
    exact hw.nodup.filter _
  · rw [he]
    exact List.nodup_nil
  · intro id hid
    rw [he] at hid
    cases hid
  · intro before id after h
    rw [he] at h
    simp at h

/-- What a turn does to a sorting whose queue is not empty. -/
theorem step_of_cons {w : Workflow} {s : Sorting} {id : String} {rest : List String}
    (hq : s.queue = id :: rest) :
    step w s =
      (targets w id).foldl release { s with queue := rest, emitted := s.emitted ++ [id] } := by
  simp [step, hq]

theorem emitted_step_of_cons {w : Workflow} {s : Sorting} {id : String} {rest : List String}
    (hq : s.queue = id :: rest) : (step w s).emitted = s.emitted ++ [id] := by
  rw [step_of_cons hq, emitted_foldl_release]

theorem step_of_nil {w : Workflow} {s : Sorting} (hq : s.queue = []) : step w s = s := by
  simp [step, hq]

/-- The nodes that a turn releases: the node that has it closes the last open connection into them.
They are queued in the order in which their last connections from that node are stored. -/
def released (w : Workflow) (done : List String) (id : String) : List String :=
  (targets w id).dedup.filter fun x => openInto w (done ++ [id]) x = 0

theorem nodup_released (w : Workflow) (done : List String) (id : String) :
    (released w done id).Nodup :=
  (List.nodup_dedup _).filter _

theorem mem_released {w : Workflow} {done : List String} {id : String} (hid : id ∉ done)
    (x : String) : x ∈ released w done id ↔
      0 < openInto w done x ∧ openInto w (done ++ [id]) x = 0 := by
  rw [released, List.mem_filter, List.mem_dedup, decide_eq_true_eq, openInto_append w hid x,
    ← List.count_pos_iff]
  omega

/-- A turn emits the node at the front of the queue and queues the nodes that it releases. -/
theorem queue_step_of_cons {w : Workflow} {s : Sorting} (h : Balanced w s) {id : String}
    {rest : List String} (hq : s.queue = id :: rest) :
    (step w s).queue = rest ++ released w s.emitted id := by
  obtain ⟨-, hid, -⟩ := (h.queued id).mp (by rw [hq]; exact List.mem_cons_self)
  have hcount : ∀ x, s.degree x = (targets w id).count x ↔
      openInto w (s.emitted ++ [id]) x = 0 := by
    intro x
    rw [h.degree_eq, openInto_append w hid x]
    omega
  have hqueue := queue_foldl_release (targets w id)
    { s with queue := rest, emitted := s.emitted ++ [id] } (h.count_targets_le hid)
  rw [← step_of_cons hq] at hqueue
  change _ = rest ++ (targets w id).dedup.filter fun x => s.degree x = _ at hqueue
  simp only [hcount] at hqueue
  exact hqueue

theorem degree_step_of_cons {w : Workflow} {s : Sorting} (h : Balanced w s) {id : String}
    {rest : List String} (hq : s.queue = id :: rest) (x : String) :
    (step w s).degree x = openInto w (s.emitted ++ [id]) x := by
  obtain ⟨-, hid, -⟩ := (h.queued id).mp (by rw [hq]; exact List.mem_cons_self)
  rw [step_of_cons hq, degree_foldl_release]
  change s.degree x - _ = _
  rw [h.degree_eq, openInto_append w hid x]
  omega

/-- What is true of every node of a list and those before it, when one more comes to the list. -/
theorem forall_cut_append {P : List String → String → Prop} {done : List String} {id : String}
    (hl : ∀ before x after, done = before ++ x :: after → P before x) (hz : P done id)
    (before : List String) (x : String) (after : List String)
    (he : done ++ [id] = before ++ x :: after) : P before x := by
  rcases List.eq_nil_or_concat after with rfl | ⟨after', last, rfl⟩
  · obtain ⟨rfl, hx⟩ := List.append_inj' he rfl
    cases hx
    exact hz
  · have hcut : done ++ [id] = (before ++ x :: after') ++ [last] := by
      rw [he, List.concat_eq_append, List.append_assoc, List.cons_append]
    exact hl before x after' (List.append_inj' hcut rfl).1

theorem balanced_step {w : Workflow} (hw : w.IsSound) {s : Sorting} (h : Balanced w s) :
    Balanced w (step w s) := by
  cases hq : s.queue with
  | nil => rw [step_of_nil hq]; exact h
  | cons id rest =>
    obtain ⟨hmem, hid, hzero⟩ := (h.queued id).mp (by rw [hq]; exact List.mem_cons_self)
    have hn := h.queue_nodup
    rw [hq, List.nodup_cons] at hn
    have hrest : ∀ x ∈ rest, x ∈ w.nodeIds ∧ x ∉ s.emitted ∧ openInto w s.emitted x = 0 :=
      fun x hx => (h.queued x).mp (by rw [hq]; exact List.mem_cons_of_mem _ hx)
    have he := emitted_step_of_cons (w := w) hq
    have hqueue := queue_step_of_cons h hq
    have hfresh := mem_released (w := w) hid
    constructor
    · intro x
      rw [he, degree_step_of_cons h hq]
    · intro x
      rw [hqueue, he, List.mem_append, List.mem_append, List.mem_singleton, not_or]
      constructor
      · rintro (hx | hx)
        · obtain ⟨h1, h2, h3⟩ := hrest x hx
          refine ⟨h1, ⟨h2, ?_⟩, openInto_mono (List.subset_append_left _ _) h3⟩
          rintro rfl
          exact hn.1 hx
        · -- a node with an open connection has had no turn yet, and is a node of the graph
          obtain ⟨h1, h2⟩ := (hfresh x).mp hx
          refine ⟨mem_nodeIds_of_openInto hw h1, ⟨fun hx' => ?_, ?_⟩, h2⟩
          · exact absurd (h.openInto_emitted hx') (Nat.ne_of_gt h1)
          · rintro rfl
            exact absurd hzero (Nat.ne_of_gt h1)
      · rintro ⟨h1, ⟨h2, h3⟩, h4⟩
        rcases Nat.eq_zero_or_pos (openInto w s.emitted x) with hz | hpos
        · have hx := (h.queued x).mpr ⟨h1, h2, hz⟩
          rw [hq] at hx
          exact Or.inl ((List.mem_cons.mp hx).resolve_left h3)
        · exact Or.inr ((hfresh x).mpr ⟨hpos, h4⟩)
    · rw [hqueue]
      refine hn.2.append (nodup_released w s.emitted id) ?_
      rw [List.disjoint_left]
      intro x hx hx'
      exact absurd (hrest x hx).2.2 (Nat.ne_of_gt ((hfresh x).mp hx').1)
    · rw [he]
      exact h.emitted_nodup.append (List.nodup_singleton id) (by simpa using hid)
    · intro x hx
      rw [he, List.mem_append, List.mem_singleton] at hx
      rcases hx with hx | rfl
      · exact h.emitted_mem x hx
      · exact hmem
    · rw [he]
      exact forall_cut_append h.led hzero

theorem balanced_run {w : Workflow} (hw : w.IsSound) (turns : Nat) {s : Sorting}
    (h : Balanced w s) : Balanced w (run w turns s) := by
  induction turns generalizing s with
  | zero => exact h
  | succ turns ih => exact ih (balanced_step hw h)

theorem run_of_nil {w : Workflow} {s : Sorting} (hq : s.queue = []) (turns : Nat) :
    run w turns s = s := by
  induction turns with
  | zero => rfl
  | succ turns ih => rw [run, step_of_nil hq, ih]

/-- Each turn of a run emits one node, until the queue is empty. -/
theorem run_empty_or_emits (w : Workflow) (turns : Nat) (s : Sorting) :
    (run w turns s).queue = [] ∨ (run w turns s).emitted.length = s.emitted.length + turns := by
  induction turns generalizing s with
  | zero => exact Or.inr rfl
  | succ turns ih =>
    rw [run]
    cases hq : s.queue with
    | nil => rw [step_of_nil hq, run_of_nil hq]; exact Or.inl hq
    | cons id rest =>
      rcases ih (step w s) with h | h
      · exact Or.inl h
      · rw [emitted_step_of_cons hq, List.length_append, List.length_singleton] at h
        exact Or.inr (by omega)

/-- The sorting when it is over. -/
def final (w : Workflow) : Sorting := run w w.nodes.length (start w)

theorem balanced_final {w : Workflow} (hw : w.IsSound) : Balanced w (final w) :=
  balanced_run hw _ (balanced_start hw)

/-- There are enough turns for every node that is ever queued. -/
theorem queue_final {w : Workflow} (hw : w.IsSound) : (final w).queue = [] := by
  have h := balanced_final hw
  rcases run_empty_or_emits w w.nodes.length (start w) with he | he
  · exact he
  · -- all nodes have been emitted, so none can be queued
    rw [emitted_start, List.length_nil, Nat.zero_add] at he
    have hle : w.nodeIds.length ≤ (final w).emitted.length := by
      rw [nodeIds, List.length_map]
      exact Nat.le_of_eq he.symm
    have hperm := (h.emitted_nodup.subperm h.emitted_mem).perm_of_length_le hle
    rw [List.eq_nil_iff_forall_not_mem]
    intro id hid
    obtain ⟨h1, h2, -⟩ := (h.queued id).mp hid
    exact h2 (hperm.mem_iff.mpr h1)

end Sorting
end Automation.Workflow
