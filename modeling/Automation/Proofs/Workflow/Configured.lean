import Automation.Behavior
import Automation.Placeholder
import Automation.Proofs.Program.Literals
import Automation.Rule.Run
import Automation.Workflow.Conversion
import Mathlib.Data.List.TakeWhile

/-!
# Arguments in a configuration

The arguments of an action go into the configuration of its node by the names of the inputs, and the
behaviour of the node takes them out again. Between the two the placeholders are filled in. Here is
what comes out: for a command the arguments in their places, and for a pause its length.
-/
namespace Automation

namespace Json

theorem lookup_cons (key other : String) (value : Json) (members : List (String × Json)) :
    lookup other ((key, value) :: members) =
      if key = other then some value else lookup other members := by
  by_cases h : key = other <;> simp [lookup, h]

/-- What is set is found, and nothing else changes. -/
theorem lookup_insertMember (key other : String) (value : Json) (members : List (String × Json)) :
    lookup other (insertMember key value members) =
      if key = other then some value else lookup other members := by
  induction members with
  | nil => rw [insertMember, lookup_cons]
  | cons m rest ih =>
    obtain ⟨k, v⟩ := m
    rw [insertMember]
    split
    · rw [lookup_cons]
    · next hlt =>
      split
      · next he =>
        subst he
        rw [lookup_cons, lookup_cons]
        split <;> rfl
      · next hne =>
        rw [lookup_cons, ih, lookup_cons]
        by_cases hk : k = other
        · rw [if_pos hk, if_pos hk, if_neg (hk ▸ hne)]
        · rw [if_neg hk, if_neg hk]

end Json

namespace Placeholder

/-- Filling in placeholders keeps the names of the members. -/
theorem lookup_renderMembers (context : Context) (key : String) (members : List (String × Json)) :
    Json.lookup key (renderMembers context members) =
      (Json.lookup key members).map (renderValue context) := by
  induction members with
  | nil => rfl
  | cons m rest ih =>
    obtain ⟨k, v⟩ := m
    rw [renderMembers, Json.lookup_cons, Json.lookup_cons, ih]
    split <;> rfl

end Placeholder

namespace Argument

/-- A number is neither infinite nor not-a-number. -/
def Finite (a : Argument) : Prop := ∀ d, a = .number d → d.isFinite

/-- Placeholders can be filled in before the argument becomes a value, or after. -/
theorem renderValue_toJson (context : Context) (a : Argument) :
    Placeholder.renderValue context a.toJson = (a.render context).toJson := by
  cases a with
  | string s => rfl
  | number d =>
    simp only [render, toJson, Json.ofDouble]
    split
    · split
      · rfl
      · split <;> rfl
    · split <;> rfl

/-- Only texts have placeholders. -/
theorem number_of_render {context : Context} {a : Argument} {d : Double}
    (h : a.render context = .number d) : a = .number d := by
  cases a with
  | string s => cases h
  | number d => exact h

theorem Finite.render {a : Argument} (h : a.Finite) (context : Context) :
    (a.render context).Finite :=
  fun d hd => h d (number_of_render hd)

theorem Representable.render {a : Argument} (h : a.Representable) (context : Context) :
    (a.render context).Representable :=
  fun d hd => h d (number_of_render hd)

/-- A finite number becomes an integer or stays as it is. -/
theorem toJson_number {d : Double} (h : d.isFinite) :
    (number d).toJson = .real d ∨ ∃ n, d.whole? = some n ∧ (number d).toJson = .int n := by
  have hreal : Json.ofDouble d = .real d := by rw [Json.ofDouble, if_pos h]
  rw [toJson, hreal]
  cases hw : d.whole? with
  | none => exact Or.inl rfl
  | some n =>
    by_cases hs : n.natAbs < 2 ^ 63
    · exact Or.inr ⟨n, rfl, if_pos hs⟩
    · exact Or.inl (if_neg hs)

/-- A value is lost only if its number is not finite. -/
theorem isNull_toJson {a : Argument} (h : a.Finite) : a.toJson.isNull = false := by
  cases a with
  | string s => rfl
  | number d =>
    rcases toJson_number (h d rfl) with hj | ⟨n, -, hj⟩
    · rw [hj]; rfl
    · rw [hj]; rfl

end Argument

namespace Behavior

/-- A number that went into a configuration as a value is as long a time as it was. -/
theorem numberField?_toJson {config : Json} {key : String} {a : Argument} {seconds : Double}
    (hf : config.field? key = some a.toJson) (hr : a.Representable) (hfin : a.Finite)
    (hn : a.number? = some seconds) :
    ∃ d, numberField? config key = some d ∧
      Duration.ofSeconds? d = Duration.ofSeconds? seconds := by
  cases a with
  | string s =>
    refine ⟨seconds, ?_, rfl⟩
    rw [numberField?, hf]
    exact hn
  | number d =>
    obtain rfl : d = seconds := by simpa [Argument.number?] using hn
    rw [numberField?, hf]
    rcases Argument.toJson_number (hfin d rfl) with hj | ⟨n, hw, hj⟩
    · rw [hj]
      exact ⟨d, rfl, rfl⟩
    · rw [hj]
      exact ⟨.ofInt n, rfl, Duration.ofSeconds?_ofInt (hr d rfl) hw⟩

/-- Values without a null at the end are passed on as they are. -/
theorem forwardedArguments_of_map {fields : List String} {config : Json} {values : List Json}
    (h : fields.map config.field? = values.map some) (hn : ∀ v ∈ values, v.isNull = false) :
    forwardedArguments fields config = values := by
  have hvalues : fields.map (fun field => (config.field? field).getD .null) = values := by
    calc fields.map (fun field => (config.field? field).getD .null)
        = (fields.map config.field?).map fun value => value.getD .null := by simp
      _ = values := by simp [h, Function.comp_def]
  have hdrop : values.reverse.dropWhile Json.isNull = values.reverse := by
    rw [List.dropWhile_eq_self_iff]
    intro hl hnull
    have hmem : values.reverse[0] ∈ values := List.mem_reverse.mp (List.getElem_mem hl)
    rw [hn _ hmem] at hnull
    cases hnull
  rw [forwardedArguments, hvalues, hdrop, List.reverse_reverse]

end Behavior

namespace Workflow

/-- The members of a configuration with arguments set by the names of the inputs. -/
def setInputs (pairs : List (Parameter × Argument)) (members : List (String × Json)) :
    List (String × Json) :=
  pairs.foldl (fun members (input, argument) =>
    Json.insertMember input.name argument.toJson members) members

theorem lookup_setInputs_of_ne {key : String} {pairs : List (Parameter × Argument)}
    (h : ∀ pair ∈ pairs, pair.1.name ≠ key) (members : List (String × Json)) :
    Json.lookup key (setInputs pairs members) = Json.lookup key members := by
  induction pairs generalizing members with
  | nil => rfl
  | cons pair rest ih =>
    obtain ⟨hne, hrest⟩ := List.forall_mem_cons.mp h
    rw [setInputs, List.foldl_cons, ← setInputs, ih hrest, Json.lookup_insertMember, if_neg hne]

theorem lookup_setInputs {inputs : List Parameter} {arguments : List Argument}
    (hn : (inputs.map Parameter.name).Nodup) (hl : inputs.length ≤ arguments.length)
    (members : List (String × Json)) :
    (inputs.map fun input => Json.lookup input.name (setInputs (inputs.zip arguments) members)) =
      (arguments.take inputs.length).map fun a => some a.toJson := by
  induction inputs generalizing arguments members with
  | nil => rfl
  | cons input inputs ih =>
    cases arguments with
    | nil => cases hl
    | cons a arguments =>
      obtain ⟨hnot, hn⟩ := List.nodup_cons.mp hn
      have hne : ∀ pair ∈ inputs.zip arguments, pair.1.name ≠ input.name := by
        intro pair hp he
        exact hnot (he ▸ List.mem_map_of_mem (List.of_mem_zip hp).1)
      have hstep : setInputs ((input, a) :: inputs.zip arguments) members =
          setInputs (inputs.zip arguments) (Json.insertMember input.name a.toJson members) := rfl
      rw [List.zip_cons_cons, hstep, List.map_cons, ih hn (Nat.le_of_succ_le_succ hl),
        lookup_setInputs_of_ne hne, Json.lookup_insertMember, if_pos rfl]
      rfl

/-- The inputs of a template find the arguments in their places, with the placeholders filled in. -/
theorem field?_configure {template : Template} {arguments : List Argument}
    (hn : (template.inputs.map Parameter.name).Nodup)
    (hl : template.inputs.length ≤ arguments.length) (context : Context) :
    (template.inputs.map Parameter.name).map
        (Placeholder.renderValue context (configure template arguments)).field? =
      ((arguments.take template.inputs.length).map
        fun a => (a.render context).toJson).map some := by
  obtain ⟨defaults, hd⟩ : ∃ defaults, configure template arguments =
      .object (setInputs (template.inputs.zip arguments) defaults) := ⟨_, rfl⟩
  have hset := congrArg (List.map fun value => value.map (Placeholder.renderValue context))
    (lookup_setInputs hn hl defaults)
  simpa [hd, Placeholder.renderValue, Json.field?, Function.comp_def,
    Placeholder.lookup_renderMembers, Argument.renderValue_toJson] using hset

end Workflow
end Automation
