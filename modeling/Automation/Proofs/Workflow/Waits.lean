import Automation.Proofs.Workflow.Converted
import Automation.Proofs.Workflow.Meaning

/-!
# A wait and the node that stands for it

A script's wait reads its first argument as a number of seconds. The node that a conversion makes of
it reads the field of its configuration in which that argument has come to stand, and the two read
the same number. Where there is none to be read they part: a wait is then refused, while a node
pauses as long as its template says if the argument is missing, and not at all if it is a text that
is no number. How a pause is refused is the same for both: what is not a number of seconds from zero
up to 2⁶⁴ is no length of time.
-/
namespace Automation

namespace Double

theorem compareBy_of_position {a b : Double} {p q : Int} (ha : a.position = some p)
    (hb : b.position = some q) (test : Int → Int → Bool) : compareBy test a b = test p q := by
  rw [compareBy, ha, hb]

theorem two_pow_mul_le {a b c : Nat} (h : a + b ≤ c) : Nat.pow 2 a * Nat.pow 2 b ≤ Nat.pow 2 c := by
  change 2 ^ a * 2 ^ b ≤ 2 ^ c
  rw [← Nat.pow_add]
  exact Nat.pow_le_pow_right (by decide) h

end Double

namespace Duration

/-- The first number of seconds that is too large for a duration. -/
def tooLong : Double := .finite false (Nat.pow 2 64 * Double.one)

theorem tooLong_le_limit : Nat.pow 2 64 * Double.one ≤ Double.limit := by
  unfold Double.one Double.limit
  apply Double.two_pow_mul_le
  decide

theorem tooLong_pos : 0 < Nat.pow 2 64 * Double.one := by
  unfold Double.one
  apply Nat.mul_pos <;> apply Nat.two_pow_pos

/-- Exactly the numbers from zero on that are not too large are lengths of time. Infinities and
not-a-number are not among them. -/
theorem ofSeconds?_isSome_iff (d : Double) :
    (ofSeconds? d).isSome ↔ Double.le Double.zero d ∧ Double.lt d tooLong := by
  have hzero : Double.zero.position = some 0 := rfl
  have hlong : tooLong.position = some ((Nat.pow 2 64 * Double.one : Nat) : Int) := rfl
  cases d with
  | nan => exact ⟨fun h => (Bool.false_ne_true h).elim, fun h => (Bool.false_ne_true h.1).elim⟩
  | infinite negative =>
    have hle := tooLong_le_limit
    have hpos := Double.limit_pos
    have hp : (Double.infinite negative).position =
        some (if negative then -(Double.limit : Int) else Double.limit) := rfl
    rw [Double.le, Double.compareBy_of_position hzero hp, Double.lt,
      Double.compareBy_of_position hp hlong]
    generalize Double.limit = limit at hle hpos
    generalize Nat.pow 2 64 * Double.one = bound at hle
    cases negative <;> simp [ofSeconds?] <;> omega
  | finite negative units =>
    have hpos := tooLong_pos
    have hp : (Double.finite negative units).position =
        some (if negative then -(units : Int) else units) := rfl
    rw [Double.le, Double.compareBy_of_position hzero hp, Double.lt,
      Double.compareBy_of_position hp hlong, ofSeconds?]
    generalize Nat.pow 2 64 * Double.one = bound at hpos
    cases negative with
    | false => simp
    | true =>
      by_cases hz : units = 0
      · simp [hz, hpos, hpos.ne']
      · simp [hz]

end Duration

namespace Routine

variable {σ ε α : Type}

/-- What comes of a request for a pause, whatever the state: it is refused, or a pause is made of
some length. The state stays as it is. -/
def Pauses (p : Routine σ (Except ε α)) : Option Duration → Prop
  | none => ∀ s, ∃ e, p.runAlone s = ⟨.ok (.error e), s, []⟩
  | some length => ∀ s, ∃ a pauses, p.runAlone s = ⟨.ok (.ok a), s, pauses⟩ ∧
      pauses.filter Duration.Lasts = [length].filter Duration.Lasts

theorem Pauses.not_refused {p : Routine σ (Except ε α)} {length : Duration}
    (h : Pauses p (some length)) (s : σ) : ¬ Pauses p none := by
  intro hnone
  obtain ⟨a, pauses, ha, -⟩ := h s
  obtain ⟨e, he⟩ := hnone s
  rw [ha] at he
  cases (Ending.mk.inj he).1

end Routine

open Routine

variable {η : Type}

/-- A wait pauses for as many seconds as its first argument says. -/
theorem Action.pauses_wait (registry : Registry η) (args : List Argument) :
    Pauses (Action.perform registry Action.waitName args)
      ((args.head?.bind Argument.number?).bind Duration.ofSeconds?) := by
  rw [Action.perform, if_pos rfl, Action.waitLength]
  cases args.head?.bind Argument.number? with
  | none => exact fun s => ⟨_, rfl⟩
  | some seconds =>
    simp only [Option.bind_some]
    cases Duration.ofSeconds? seconds with
    | none => exact fun s => ⟨_, rfl⟩
    | some length => exact fun s => ⟨_, _, rfl, rfl⟩

/-- A delay pauses for as many seconds as its configuration says. -/
theorem Behavior.pauses_delay (config : Json) :
    Pauses (Behavior.delay (η := η) config)
      (Duration.ofSeconds? ((numberField? config "seconds").getD Double.zero)) := by
  rw [delay]
  cases Duration.ofSeconds? ((numberField? config "seconds").getD Double.zero) with
  | none => exact fun s => ⟨_, rfl⟩
  | some length =>
    intro s
    by_cases hz : length.nanos = 0
    · simp only [hz, ne_eq, not_true_eq_false, ↓reduceIte]
      exact ⟨_, [], rfl, by simp [Duration.Lasts, hz]⟩
    · simp only [hz, ne_eq, not_false_eq_true, ↓reduceIte]
      exact ⟨_, [length], rfl, rfl⟩

theorem Placeholder.field?_renderValue (context : Context) (value : Json) (key : String) :
    (renderValue context value).field? key = (value.field? key).map (renderValue context) := by
  cases value with
  | object members => exact lookup_renderMembers context key members
  | _ => rfl

namespace Workflow

/-- The seconds that a delay is given by the arguments of a wait: one if there are no arguments, and
none if the first is a text that does not read as a number. -/
def delaySeconds : List Argument → Double
  | [] => Double.ofInt 1
  | first :: _ => first.number?.getD Double.zero

theorem defaultSeconds_of_wait {template : Template}
    (h : (templateFor? Action.waitName).bind Catalog.builtin.get? = some template) :
    template.defaultConfig.field? "seconds" = some (.int 1) := by
  obtain rfl := Option.some.inj h
  rfl

/-- What the node of a wait has in its configuration under the name of its only input. -/
theorem field?_of_overrides {template : Template} {arguments : List Argument} {config : Json}
    (ht : (templateFor? Action.waitName).bind Catalog.builtin.get? = some template)
    (hn : template.inputs.map Parameter.name = ["seconds"])
    (h : Overrides template arguments config) :
    config.field? "seconds" = some ((arguments.head?.map Argument.toJson).getD (.int 1)) := by
  obtain ⟨input, hinputs, hname⟩ := List.map_eq_singleton_iff.mp hn
  cases arguments with
  | nil =>
    rw [h.kept "seconds" (by simp), defaultSeconds_of_wait ht]
    rfl
  | cons first rest =>
    have hgiven := h.given [] input first [] (by rw [hinputs]; rfl) (by simp)
    rwa [hname] at hgiven

/-- The node of a wait finds as many seconds in its configuration as the arguments give. -/
theorem ofSeconds?_of_overrides {template : Template} {arguments : List Argument} {config : Json}
    (ht : (templateFor? Action.waitName).bind Catalog.builtin.get? = some template)
    (hn : template.inputs.map Parameter.name = ["seconds"])
    (h : Overrides template arguments config) (hr : ∀ a ∈ arguments, a.Representable)
    (hf : ∀ a, arguments.head? = some a → a.Finite) (context : Context) :
    Duration.ofSeconds? ((Behavior.numberField? (Placeholder.renderValue context config)
        "seconds").getD Double.zero) =
      Duration.ofSeconds? (delaySeconds (arguments.map (Argument.render context))) := by
  have hfield : (Placeholder.renderValue context config).field? "seconds" =
      (config.field? "seconds").map (Placeholder.renderValue context) :=
    Placeholder.field?_renderValue context config "seconds"
  rw [field?_of_overrides ht hn h] at hfield
  cases arguments with
  | nil =>
    have hdefault : (Placeholder.renderValue context config).field? "seconds" = some (.int 1) :=
      hfield
    simp only [Behavior.numberField?, hdefault, delaySeconds, List.map_nil, Option.getD_some]
  | cons first rest =>
    have hfirst : (Placeholder.renderValue context config).field? "seconds" =
        some (first.render context).toJson := by
      rw [hfield, ← Argument.renderValue_toJson]
      rfl
    cases hn : (first.render context).number? with
    | some seconds =>
      obtain ⟨d, hd, hsame⟩ := Behavior.numberField?_toJson hfirst
        ((hr first List.mem_cons_self).render context) ((hf first rfl).render context) hn
      simp only [hd, delaySeconds, List.map_cons, hn, Option.getD_some, hsame]
    | none =>
      -- only a text can fail to be a number
      obtain ⟨s, hs⟩ : ∃ s, first.render context = .string s := by
        cases hs : first.render context with
        | string s => exact ⟨s, rfl⟩
        | number d => rw [hs] at hn; cases hn
      rw [hs] at hfirst hn
      have hnone :
          Behavior.numberField? (Placeholder.renderValue context config) "seconds" = none := by
        rw [Behavior.numberField?, hfirst]
        exact hn
      simp only [hnone, delaySeconds, List.map_cons, hs, hn]

/-- The node of a wait pauses for as many seconds as the arguments give it. -/
theorem pauses_of_madeOf {action : Action} {node : Node} (h : MadeOf Catalog.builtin action node)
    (hwait : action.command = Action.waitName) (hr : ∀ a ∈ action.arguments, a.Representable)
    (hf : ∀ a, action.arguments.head? = some a → a.Finite) (registry : Registry η)
    (context : Context) :
    ∃ behavior, (Behavior.builtin registry).get? node.templateId = some behavior ∧
      Pauses (behavior (Placeholder.renderValue context node.config))
        (Duration.ofSeconds? (delaySeconds (action.arguments.map (Argument.render context)))) := by
  obtain ⟨-, template, htemplate, hid, -, hconfig⟩ := h
  rw [templateOf?, hwait] at htemplate
  obtain ⟨other, hother, hnames, hget⟩ := template_of_wait registry
  obtain rfl : template = other := Option.some.inj (htemplate.symm.trans hother)
  refine ⟨Behavior.delay, hid ▸ hget, ?_⟩
  rw [← ofSeconds?_of_overrides htemplate hnames hconfig hr hf context]
  exact Behavior.pauses_delay _

/-- What a wait and its node come to, run from any state: each is refused or pauses. -/
structure Comes (registry : Registry η) (context : Context) (action : Action) (node : Node)
    (wait delay : Option Duration) : Prop where
  wait : Pauses (Action.perform registry action.command
    (action.arguments.map (Argument.render context))) wait
  delay : ∃ behavior, (Behavior.builtin registry).get? node.templateId = some behavior ∧
    Pauses (behavior (Placeholder.renderValue context node.config)) delay

/-- Where a wait is refused and its node pauses, they do not come to the same. -/
theorem Comes.unlike {registry : Registry η} {context : Context} {action : Action} {node : Node}
    {length : Duration} (h : Comes registry context action node none (some length))
    (world : World η) : ¬ ∃ length?, Comes registry context action node length? length? := by
  rintro ⟨length?, hwait, behavior, hget, hpauses⟩
  obtain ⟨hrefused, other, hother, hlasts⟩ := h
  obtain rfl : behavior = other := Option.some.inj (hget.symm.trans hother)
  cases length? with
  | none => exact hlasts.not_refused (world, Dict.empty) hpauses
  | some length? => exact hwait.not_refused world hrefused

/-- What a wait and its node come to, by what the placeholders leave of the first argument. -/
structure WaitsLike (registry : Registry η) (context : Context) (action : Action) (node : Node) :
    Prop where
  told : ∀ first seconds, action.arguments.head? = some first →
    (first.render context).number? = some seconds →
      Comes registry context action node (Duration.ofSeconds? seconds) (Duration.ofSeconds? seconds)
  unread : ∀ first, action.arguments.head? = some first → (first.render context).number? = none →
    Comes registry context action node none (some Duration.zero)
  missing : action.arguments = [] →
    Comes registry context action node none (some (Duration.ofSeconds 1))

theorem waitsLike_of_madeOf {action : Action} {node : Node} (h : MadeOf Catalog.builtin action node)
    (hwait : action.command = Action.waitName) (hr : ∀ a ∈ action.arguments, a.Representable)
    (hf : ∀ a, action.arguments.head? = some a → a.Finite) (registry : Registry η)
    (context : Context) : WaitsLike registry context action node := by
  have hnode := pauses_of_madeOf h hwait hr hf registry context
  have haction := Action.pauses_wait registry (action.arguments.map (Argument.render context))
  rw [← hwait] at haction
  obtain ⟨command, arguments⟩ := action
  constructor
  · intro first seconds hfirst hseconds
    obtain ⟨rest, rfl⟩ := List.head?_eq_some_iff.mp hfirst
    simp only [List.map_cons, List.head?_cons, Option.bind_some, hseconds, delaySeconds,
      Option.getD_some] at haction hnode
    exact ⟨haction, hnode⟩
  · intro first hfirst hnumber
    obtain ⟨rest, rfl⟩ := List.head?_eq_some_iff.mp hfirst
    have hzero : Duration.ofSeconds? Double.zero = some Duration.zero := by decide +kernel
    simp only [List.map_cons, List.head?_cons, Option.bind_some, hnumber, Option.bind_none,
      delaySeconds, Option.getD_none, hzero] at haction hnode
    exact ⟨haction, hnode⟩
  · rintro rfl
    have hone : Duration.ofSeconds? (Double.ofInt 1) = some (Duration.ofSeconds 1) := by
      decide +kernel
    simp only [List.map_nil, List.head?_nil, Option.bind_none, delaySeconds, hone] at haction hnode
    exact ⟨haction, hnode⟩

/-- Every wait has a template. -/
theorem templateOf?_of_wait {action : Action} (hwait : action.command = Action.waitName) :
    (templateOf? Catalog.builtin action).isSome := by
  rw [templateOf?, hwait]
  rfl

/-- In a workflow that a script is converted to there is a node for every wait of the script's first
rule, and the two come to the same if the first argument gives a number of seconds: both are refused
if that number is none from zero up to 2⁶⁴, and otherwise they pause equally long. If the first
argument is a text that does not read as a number, or there is none, the wait is refused; the node
then goes on at once, or pauses for the second that its template says. Numbers too large to be
written in a configuration are left out. -/
theorem ofScript_waits (script : Script) {program : Program}
    (h : Program.compile script.code = .ok program) (now : Instant) (ids : Supply Uuid) :
    ∃ w later, ofScript script Catalog.builtin now ids = .ok (w, later) ∧
      (∀ rule, program.rules.head? = some rule →
        ∀ action ∈ rule.actions, action.command = Action.waitName →
          action ∈ templatedActions Catalog.builtin program.rules) ∧
      List.Forall₂ (fun action node => action.command = Action.waitName →
          (∀ a, action.arguments.head? = some a → a.Finite) →
            ∀ (η : Type) (registry : Registry η) (context : Context),
              WaitsLike registry context action node)
        (templatedActions Catalog.builtin program.rules) w.nodes ∧
      ∀ seconds, (Duration.ofSeconds? seconds).isSome ↔
        Double.le Double.zero seconds ∧ Double.lt seconds Duration.tooLong := by
  have hmem : ∀ action ∈ templatedActions Catalog.builtin program.rules,
      ∀ a ∈ action.arguments, a.Representable := by
    intro action haction
    rw [templatedActions, List.mem_filter] at haction
    cases hrules : program.rules with
    | nil => simp [hrules] at haction
    | cons rule rest =>
      rw [hrules] at haction
      exact Program.representable_of_compile h rule (by simp [hrules]) action haction.1
  have hnodes := (isConversion_converted script.name program.rules Catalog.builtin now ids).nodes
  refine ⟨_, _, ofScript_eq h Catalog.builtin now ids, fun rule hrule action haction hwait => ?_,
    ?_, Duration.ofSeconds?_isSome_iff⟩
  · rw [templatedActions, hrule, List.mem_filter]
    exact ⟨haction, templateOf?_of_wait hwait⟩
  · refine (((List.forall₂_and_left _ _).mpr ⟨hmem, hnodes⟩).imp ?_)
    rintro action node ⟨hr, hmade⟩ hwait hf η registry context
    exact waitsLike_of_madeOf hmade hwait hr hf registry context

/-- A pause that a placeholder gives, one that ends before it begins, and one without end. -/
theorem ofScript_waits_given :
    let script := Script.create ⟨0⟩ ⟨0, 0⟩ "pauses"
      "on x do wait('\x7b\x7bdelay\x7d\x7d') wait('-1') wait('inf') end"
    let given : Action := ⟨"wait", [.string "\x7b\x7bdelay\x7d\x7d"]⟩
    let negative : Action := ⟨"wait", [.string "-1"]⟩
    let endless : Action := ⟨"wait", [.string "inf"]⟩
    let ids : Supply Uuid := ⟨fun n => ⟨BitVec.ofNat 128 n⟩, 1⟩
    let context : Context := Dict.ofList [("delay", "3")]
    let registry : Registry Unit := Registry.empty
    Program.compile script.code = .ok ⟨[⟨.event "x" none, [given, negative, endless]⟩]⟩ ∧
      ∃ w later a b c, ofScript script Catalog.builtin ⟨0, 0⟩ ids = .ok (w, later) ∧
        w.nodes = [a, b, c] ∧
        Comes registry context given a (some (Duration.ofSeconds 3)) (some (Duration.ofSeconds 3)) ∧
        Comes registry context negative b none none ∧
        Comes registry context endless c none none := by
  intro script given negative endless ids context registry
  have hcompiles : Program.compile script.code =
      .ok ⟨[⟨.event "x" none, [given, negative, endless]⟩]⟩ := by decide +kernel
  have htemplated : templatedActions Catalog.builtin
      [⟨.event "x" none, [given, negative, endless]⟩] = [given, negative, endless] := by
    decide +kernel
  have hfinite : ∀ (s : String) (a : Argument), [Argument.string s].head? = some a → a.Finite := by
    rintro s a ⟨⟩ d ⟨⟩
  obtain ⟨w, later, hw, -, hnodes, -⟩ := ofScript_waits script hcompiles ⟨0, 0⟩ ids
  rw [htemplated] at hnodes
  simp only [List.forall₂_cons_left_iff, List.forall₂_nil_left_iff] at hnodes
  obtain ⟨a, _, ha, ⟨b, _, hb, ⟨c, _, hc, rfl, rfl⟩, rfl⟩, hnodes⟩ := hnodes
  refine ⟨hcompiles, w, later, a, b, c, hw, hnodes, ?_, ?_, ?_⟩
  · have hthree : Duration.ofSeconds? (Double.ofInt 3) = some (Duration.ofSeconds 3) := by
      decide +kernel
    have htold := (ha rfl (hfinite _) Unit registry context).told _ (Double.ofInt 3) rfl
      (by decide +kernel)
    rwa [hthree] at htold
  · have hnone : Duration.ofSeconds? (Double.ofInt (-1)) = none := by decide +kernel
    have htold := (hb rfl (hfinite _) Unit registry context).told _ (Double.ofInt (-1)) rfl
      (by decide +kernel)
    rwa [hnone] at htold
  · exact (hc rfl (hfinite _) Unit registry context).told _ (.infinite false) rfl
      (by decide +kernel)

/-- A wait without arguments and one for a text that is no number are refused, and their nodes pause
for a second and not at all. -/
theorem ofScript_waits_unlike :
    let script := Script.create ⟨0⟩ ⟨0, 0⟩ "pauses" "on x do wait() wait('soon') end"
    let missing : Action := ⟨"wait", []⟩
    let unread : Action := ⟨"wait", [.string "soon"]⟩
    let ids : Supply Uuid := ⟨fun n => ⟨BitVec.ofNat 128 n⟩, 1⟩
    let registry : Registry Unit := Registry.empty
    Program.compile script.code = .ok ⟨[⟨.event "x" none, [missing, unread]⟩]⟩ ∧
      ∃ w later a b, ofScript script Catalog.builtin ⟨0, 0⟩ ids = .ok (w, later) ∧
        w.nodes = [a, b] ∧
        (¬ ∃ length?, Comes registry Dict.empty missing a length? length?) ∧
        ¬ ∃ length?, Comes registry Dict.empty unread b length? length? := by
  intro script missing unread ids registry
  have hcompiles : Program.compile script.code = .ok ⟨[⟨.event "x" none, [missing, unread]⟩]⟩ := by
    decide +kernel
  have htemplated : templatedActions Catalog.builtin [⟨.event "x" none, [missing, unread]⟩] =
      [missing, unread] := by
    decide +kernel
  have hnodes := (isConversion_converted script.name [⟨.event "x" none, [missing, unread]⟩]
    Catalog.builtin ⟨0, 0⟩ ids).nodes
  rw [htemplated] at hnodes
  simp only [List.forall₂_cons_left_iff, List.forall₂_nil_left_iff] at hnodes
  obtain ⟨a, _, ha, ⟨b, _, hb, rfl, rfl⟩, hnodes⟩ := hnodes
  have world : World Unit := ⟨(), 0, ⟨fun _ => ⟨0⟩, 0⟩, ⟨fun _ => ⟨0, 0⟩, 0⟩, ⟨fun _ => 0, 0⟩,
    ⟨fun n => n, 0⟩⟩
  refine ⟨hcompiles, _, _, a, b, ofScript_eq hcompiles Catalog.builtin ⟨0, 0⟩ ids, hnodes, ?_, ?_⟩
  · have hrepresentable : ∀ a ∈ missing.arguments, a.Representable := by
      intro a ha
      cases ha
    have hfinite : ∀ a, missing.arguments.head? = some a → a.Finite := by
      intro a ha
      cases ha
    have hwaits := waitsLike_of_madeOf ha rfl hrepresentable hfinite registry Dict.empty
    exact (hwaits.missing rfl).unlike world
  · have hrepresentable : ∀ a ∈ unread.arguments, a.Representable := by
      rintro a ha d rfl
      cases List.mem_singleton.mp ha
    have hfinite : ∀ a, unread.arguments.head? = some a → a.Finite := by
      rintro a ⟨⟩ d ⟨⟩
    have hwaits := waitsLike_of_madeOf hb rfl hrepresentable hfinite registry Dict.empty
    exact (hwaits.unread _ rfl (by decide +kernel)).unlike world

end Workflow
end Automation
