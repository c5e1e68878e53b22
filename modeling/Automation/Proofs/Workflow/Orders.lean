import Automation.Proofs.Engine.Determined
import Automation.Proofs.Workflow.Independent
import Automation.Proofs.Workflow.Row

/-!
# Both orders of a run

A graph without a cycle can be run as its nodes are stored or in the order of its connections. If
the nodes do not depend on each other it does not matter: one run completes if and only if the other
does, with the same outputs, and with the same variables if no variable is set by two nodes. Of the
behaviours that are always there only the one that draws a number depends on more than its
configuration, as long as the handlers of the commands do not.
-/
namespace Automation

open Routine

variable {η : Type}

section Builtin

/-- A routine on the world leaves the variables of the run as they are. -/
theorem withOwn_onWorld {α : Type} (p : Routine (World η) α) (vars : Variables) :
    (Behavior.onWorld p).withOwn vars = p >>= fun a => pure (a, vars) := by
  change _ = p.bind fun a => .done (a, vars)
  induction p with
  | done a => rfl
  | crash message => rfl
  | commit update next ih => exact congrArg (commit update) (funext ih)
  | pause length next ih => exact congrArg (pause length) ih

theorem contributes_done (result : Except NodeError Json) :
    Contributes (.done result : Routine (Scope η) (Except NodeError Json)) ⟨.ok result, []⟩ := by
  intro vars pauses ending hc
  cases hc with
  | done => rfl

/-- What a node that forwards a command makes of what came of it. -/
def forwardedAnswer : Except CommandError Dispatch → Except NodeError Json
  | .ok (.handled output) => .ok output
  | .ok .unknown => .ok .null
  | .error e => .error (.fatal e.message)

theorem forward_eq (registry : Registry η) (command : String) (fields : List String)
    (config : Json) : Behavior.forward registry command fields config =
      Behavior.onWorld (registry.dispatch command (Behavior.forwardedArguments fields config)) >>=
        fun result => pure (forwardedAnswer result) := by
  refine congrArg (Bind.bind _) (funext fun result => ?_)
  rcases result with e | output | _
  · rfl
  · rfl
  · rfl

/-- What forwards a command contributes what the command comes to. -/
theorem contributes_forward {registry : Registry η} (h : registry.Functional) (command : String)
    (fields : List String) (config : Json) :
    ∃ outcome, Contributes (Behavior.forward registry command fields config) ⟨outcome, []⟩ := by
  have hdispatch := determined_dispatch (h command) (Behavior.forwardedArguments fields config)
  obtain ⟨outcome, ho⟩ := hdispatch.exists_outcome
  refine ⟨outcome.map forwardedAnswer, fun vars pauses ending hc => ?_⟩
  rw [forward_eq, withOwn_bind, withOwn_onWorld, bind_assoc] at hc
  rcases course_bind hc with ⟨message, hp, rfl⟩ | ⟨result, before, after, hp, hlater, -⟩
  · rw [← ho _ _ hp]
    rfl
  · cases hlater with
    | done =>
      rw [← ho _ _ hp]
      rfl

theorem contributes_delay (config : Json) :
    ∃ outcome, Contributes (Behavior.delay (η := η) config) ⟨outcome, []⟩ := by
  unfold Behavior.delay
  dsimp only
  split
  · exact ⟨_, contributes_done _⟩
  · next length _ =>
    split
    · refine ⟨.ok (.ok (.object [("waitedMs", .ofNat (length.millis % Nat.pow 2 64))])),
        fun vars pauses ending hc => ?_⟩
      cases hc with
      | pause hc => exact contributes_done _ vars _ ending hc
    · exact ⟨_, contributes_done _⟩

/-- What sets a variable contributes it. -/
theorem contributes_assign (config : Json) :
    ∃ c, Contributes (Behavior.assign (η := η) config) c ∧
      ∀ name ∈ c.writes.map Prod.fst, Behavior.nameField? config "name" = some name := by
  unfold Behavior.assign
  cases hn : Behavior.nameField? config "name" with
  | none => exact ⟨_, contributes_done _, fun name h => nomatch h⟩
  | some name =>
    let value := (config.field? "value").getD .null
    refine ⟨⟨.ok (.ok value), [(name, value)]⟩, fun vars pauses ending hc => ?_, ?_⟩
    · cases hc with
      | commit world hc => cases hc with
        | done => rfl
    · simp

/-- Of the behaviours that are always there all but the one that draws a number are functions of
their configuration, and only one of them sets a variable. -/
theorem exists_contributes {registry : Registry η} (h : registry.Functional) {template : String}
    {behavior : Behavior η} (hb : (Behavior.builtin registry).get? template = some behavior)
    (hr : template ≠ "random-number") (config : Json) :
    ∃ c, Contributes (behavior config) c ∧ ∀ name ∈ c.writes.map Prod.fst,
      template = "set-variable" ∧ Behavior.nameField? config "name" = some name := by
  have hquiet : ∀ {behavior : Behavior η},
      (∃ outcome, Contributes (behavior config) ⟨outcome, []⟩) →
        ∃ c, Contributes (behavior config) c ∧ ∀ name ∈ c.writes.map Prod.fst,
          template = "set-variable" ∧ Behavior.nameField? config "name" = some name := by
    rintro behavior ⟨outcome, hc⟩
    exact ⟨_, hc, fun name hn => nomatch hn⟩
  have hmem := Dict.mem_of_get?_ofList hb
  simp only [List.mem_cons, List.not_mem_nil, or_false, Prod.mk.injEq] at hmem
  rcases hmem with ⟨rfl, rfl⟩ | ⟨rfl, rfl⟩ | ⟨rfl, rfl⟩ | ⟨rfl, rfl⟩ | ⟨rfl, rfl⟩ | ⟨rfl, rfl⟩ |
    ⟨rfl, rfl⟩ | ⟨rfl, rfl⟩
  · exact hquiet (contributes_forward h "switchScene" ["sceneName"] config)
  · exact hquiet (contributes_forward h "playSound" ["sound", "volume"] config)
  · exact hquiet (contributes_forward h "showAlert" ["title", "message", "duration"] config)
  · exact hquiet (contributes_forward h "speak" ["text"] config)
  · exact hquiet (contributes_delay config)
  · exact absurd rfl hr
  · obtain ⟨c, hc, hnames⟩ := contributes_assign (η := η) config
    exact ⟨c, hc, fun name hn => ⟨rfl, hnames name hn⟩⟩
  · exact hquiet ⟨_, contributes_done _⟩

end Builtin

namespace Workflow.Runner

/-- A sound graph without a cycle can be run in the order of its connections, which is the stored
one up to a permutation. -/
theorem exists_orderedNodes (runner : Runner η) {w : Workflow} (hw : w.IsSound)
    (ha : ¬ w.HasCycle) :
    ∃ nodes, Runner.orderedNodes { runner with order := .topological } w = .ok nodes ∧
      nodes.Perm w.nodes := by
  obtain ⟨order, horder, hperm, -⟩ := topologicalOrder_of_acyclic hw ha
  refine ⟨order.filterMap w.node?, ?_, ?_⟩
  · rw [orderedNodes, horder]
    rfl
  · have hnodes := hperm.filterMap w.node?
    rwa [filterMap_node? hw.nodup] at hnodes

/-- Nodes that have behaviours which are always there, and draw no numbers. -/
theorem exists_settles {runner : Runner η} {registry : Registry η} (h : registry.Functional)
    (hb : runner.behaviors = Behavior.builtin registry) (context : Context) :
    ∃ contribution : Node → Contribution, ∀ node, node.templateId ≠ "random-number" →
      runner.Settles context contribution node ∧
      ∀ name ∈ (contribution node).writes.map Prod.fst, node.templateId = "set-variable" ∧
        Behavior.nameField? (Placeholder.renderValue context node.config) "name" = some name := by
  have hnode : ∀ node : Node, ∃ c : Contribution, node.templateId ≠ "random-number" →
      (node.enabled → ∀ behavior, runner.behaviors.get? node.templateId = some behavior →
        Contributes (behavior (Placeholder.renderValue context node.config)) c) ∧
      ∀ name ∈ c.writes.map Prod.fst, node.templateId = "set-variable" ∧
        Behavior.nameField? (Placeholder.renderValue context node.config) "name" = some name := by
    intro node
    by_cases hr : node.templateId = "random-number"
    · exact ⟨⟨.error "", []⟩, fun hne => absurd hr hne⟩
    · cases hget : runner.behaviors.get? node.templateId with
      | none => exact ⟨⟨.error "", []⟩, fun _ => ⟨nofun, nofun⟩⟩
      | some behavior =>
        obtain ⟨c, hc, hnames⟩ := exists_contributes h (hb ▸ hget) hr
          (Placeholder.renderValue context node.config)
        refine ⟨c, fun _ => ⟨fun _ other ho => ?_, hnames⟩⟩
        obtain rfl := Option.some.inj ho
        exact hc
  choose contribution hcontribution using hnode
  exact ⟨contribution, hcontribution⟩

theorem mem_outputs {contribution : Node → Contribution} {node : Node} {name : String}
    (h : name ∈ (outputs contribution node).map Prod.fst) : name = node.id := by
  cases ho : (contribution node).output? <;> simp_all [outputs]

/-- The two orders of a run whose nodes do not depend on each other: each node makes a contribution
that is a function of its own configuration. One run completes if and only if the other does. If
they complete, what is found among the results is the same, and what is found among the variables as
well if different nodes set different variables. Both runs may share the world with others. -/
theorem orders_agree {runner : Runner η} {w : Workflow} {context : Context}
    {contribution : Node → Contribution} (hw : w.IsSound) (ha : ¬ w.HasCycle)
    (hc : ∀ node ∈ w.nodes, runner.Settles context contribution node)
    {id other : Uuid} {now later : Instant} {pauses others : List Duration}
    {stored connected : Except String (Execution × Variables)}
    (hs : Course (Runner.run { runner with order := .stored } w (.start id w.id now) context) pauses
      stored)
    (ht : Course (Runner.run { runner with order := .topological } w (.start other w.id later)
      context) others connected) :
    (Completes stored ↔ Completes connected) ∧
      ∀ e vars f kept, stored = .ok (e, vars) → connected = .ok (f, kept) →
        e.status = .completed → f.status = .completed →
          (∀ id, e.results.get? id = f.results.get? id) ∧
          ((∀ a ∈ w.nodes, ∀ b ∈ w.nodes, runner.acts a → runner.acts b → a.id ≠ b.id →
              ∀ name ∈ (contribution a).writes.map Prod.fst,
                name ∉ (contribution b).writes.map Prod.fst) →
            ∀ name, vars.get? name = kept.get? name) := by
  obtain ⟨nodes, hn, hperm⟩ := exists_orderedNodes runner hw ha
  have hordered : Runner.orderedNodes { runner with order := .stored } w = .ok w.nodes := rfl
  have hsettled : ∀ node ∈ nodes, runner.Settles context contribution node :=
    fun node hm => hc node (hperm.mem_iff.mp hm)
  obtain ⟨hstored, hleft⟩ := run_settled hordered hc hs
  obtain ⟨hconnected, hkept⟩ := run_settled hn hsettled ht
  refine ⟨?_, fun e vars f kept he hf hcompleted hdone => ?_⟩
  · rw [hstored, hconnected]
    exact ⟨fun h node hm => h node (hperm.mem_iff.mp hm),
      fun h node hm => h node (hperm.mem_iff.mpr hm)⟩
  · obtain ⟨hresults, hvars⟩ := hleft e vars he hcompleted
    obtain ⟨hothers, hrest⟩ := hkept f kept hf hdone
    have hfilter : (w.nodes.filter runner.acts).Perm (nodes.filter runner.acts) :=
      (hperm.filter _).symm
    have hne : ∀ a ∈ w.nodes.filter runner.acts, ∀ b ∈ w.nodes.filter runner.acts, a ≠ b →
        a.id ≠ b.id := fun a hma b hmb hab hid =>
      hab (List.inj_on_of_nodup_map hw.nodup (List.mem_of_mem_filter hma)
        (List.mem_of_mem_filter hmb) hid)
    constructor
    · have hview := Variables.get?_overlaid_of_perm hfilter (outputs contribution)
        (fun a hma b hmb hab name hna hnb =>
          hne a hma b hmb hab ((mem_outputs hna).symm.trans (mem_outputs hnb))) Dict.empty
      rw [hresults, hothers]
      exact congrFun hview
    · intro hd
      have hview := Variables.get?_overlaid_of_perm hfilter
        (fun node => (contribution node).writes) (fun a hma b hmb hab =>
          hd a (List.mem_of_mem_filter hma) b (List.mem_of_mem_filter hmb)
            (List.mem_filter.mp hma).2 (List.mem_filter.mp hmb).2 (hne a hma b hmb hab)) w.vars
      rw [hvars, hrest]
      exact congrFun hview

namespace Errands

def node (id templateId : String) (config : Json) : Node :=
  ⟨id, templateId, id, Point.origin, config, true⟩

/-- The node that is stored first comes last in the order of the connections. -/
def errands : Workflow :=
  { Workflow.create ⟨0⟩ ⟨0, 0⟩ "errands" .manual with
    nodes := [node "c" "set-variable" (.object [("name", .string "y"), ("value", .int 2)]),
      node "a" "speak" (.object [("text", .string "hello")]),
      node "b" "set-variable" (.object [("name", .string "x"), ("value", .int 1)])]
    connections := [⟨"a-b", "a", "b", none, none⟩, ⟨"b-c", "b", "c", none, none⟩] }

def registry : Registry Unit := .ofList [("speak", fun _ => pure (.ok (.string "said")))]

def runner (order : Order) : Runner Unit := ⟨Behavior.builtin registry, order, .standard⟩

def world : World Unit := ⟨(), 0, ⟨fun _ => ⟨0⟩, 0⟩, ⟨fun _ => ⟨0, 0⟩, 0⟩, ⟨fun _ => 0, 0⟩,
  ⟨fun n => n, 0⟩⟩

/-- What the errands come to in a world of their own. -/
def outcome (order : Order) : Except String (Execution × Variables) :=
  (((runner order).run errands (.start ⟨0⟩ errands.id ⟨0, 0⟩) Dict.empty).runAlone world).outcome

theorem functional_registry : registry.Functional := by
  intro name handler hget args
  have hinsert : ((Dict.empty : Dict String (Handler Unit)).insert "speak"
      fun _ => pure (.ok (.string "said"))).get? name = some handler := hget
  rw [Dict.get?_insert] at hinsert
  split at hinsert
  · cases hinsert
    exact concur_pure rfl
  · cases hinsert

theorem exists_of_summary {outcome : Except String (Execution × Variables)}
    {status : Execution.Status} {names : List String}
    (h : outcome.toOption.map (fun left => (left.1.status, left.2.keys)) = some (status, names)) :
    ∃ e vars, outcome = .ok (e, vars) ∧ e.status = status ∧ vars.keys = names := by
  cases outcome with
  | error message => cases h
  | ok left =>
    cases h
    exact ⟨left.1, left.2, rfl, rfl, rfl⟩

/-- The errands are done in either order, and leave the same. -/
theorem orders_agree_errands :
    errands.topologicalOrder = .ok ["a", "b", "c"] ∧ errands.nodeIds = ["c", "a", "b"] ∧
      ∃ e vars f kept, outcome .stored = .ok (e, vars) ∧ outcome .topological = .ok (f, kept) ∧
        e.status = .completed ∧ f.status = .completed ∧ vars.keys = ["y", "x"] ∧
        kept.keys = ["x", "y"] ∧ (∀ id, e.results.get? id = f.results.get? id) ∧
        ∀ name, vars.get? name = kept.get? name := by
  have horder : errands.topologicalOrder = .ok ["a", "b", "c"] := rfl
  obtain ⟨hw, ha, -⟩ := sorted_of_ok horder
  have hbehaviors : (runner .stored).behaviors = Behavior.builtin registry := rfl
  obtain ⟨contribution, hc⟩ := exists_settles functional_registry hbehaviors Dict.empty
  have hdraws : ∀ node ∈ errands.nodes, node.templateId ≠ "random-number" := by decide
  have hnames : ∀ a ∈ errands.nodes, ∀ b ∈ errands.nodes, a.id ≠ b.id →
      a.templateId = "set-variable" → b.templateId = "set-variable" →
        Behavior.nameField? (Placeholder.renderValue Dict.empty a.config) "name" ≠
          Behavior.nameField? (Placeholder.renderValue Dict.empty b.config) "name" := by
    decide +kernel
  obtain ⟨e, vars, he, hcompleted, hkeys⟩ : ∃ e vars, outcome .stored = .ok (e, vars) ∧
      e.status = .completed ∧ vars.keys = ["y", "x"] :=
    exists_of_summary (by decide +kernel)
  obtain ⟨f, kept, hf, hdone, hothers⟩ : ∃ f kept, outcome .topological = .ok (f, kept) ∧
      f.status = .completed ∧ kept.keys = ["x", "y"] :=
    exists_of_summary (by decide +kernel)
  have hagree := (orders_agree hw ha (fun node hm => (hc node (hdraws node hm)).1)
    (course_runAlone _ world) (course_runAlone _ world)).2 e vars f kept he hf hcompleted hdone
  refine ⟨horder, rfl, e, vars, f, kept, he, hf, hcompleted, hdone, hkeys, hothers, hagree.1,
    hagree.2 fun a hma b hmb _ _ hid name hna hnb => ?_⟩
  obtain ⟨hsets, hname⟩ := (hc a (hdraws a hma)).2 name hna
  obtain ⟨halso, hsame⟩ := (hc b (hdraws b hmb)).2 name hnb
  exact hnames a hma b hmb hid hsets halso (hname.trans hsame.symm)

end Errands

end Workflow.Runner
end Automation
