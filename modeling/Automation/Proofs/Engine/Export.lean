import Automation.Proofs.Engine.Graphs
import Automation.Proofs.Exchange.Workflow

/-!
# Export and import

What is exported of a workflow can be imported anywhere, and what is stored there differs from the
workflow in nothing but the identifier and the time at which it was made.
-/
namespace Automation.Engine

open Routine

variable {η θ : Type}

/-- What is stored when a workflow is imported: it is given the next identifier and the present
time. -/
def State.imported (s : State η) (w : Workflow) : Workflow :=
  { w with id := s.takeId.1, createdAt := s.takeId.2.now.1 }

theorem importable?_pretty {w : Workflow} (hgraph : w.checkGraph = .ok ()) (h : w.ReadsBack)
    (hdepth : w.toJson.depth < Document.nestingLimit) :
    importable? w.toJson.pretty = some w := by
  rw [importable?, Workflow.decode_pretty h hdepth]
  simp only [hgraph]

theorem exportWorkflow_stored {s : State η} {id : Uuid} {w : Workflow}
    (h : s.workflows.rows.get? id = some w) :
    (exportWorkflow id).run.runAlone s = ⟨.ok (.ok w.toJson.pretty), s, []⟩ := by
  have hget : s.workflows.get id = .ok w := by rw [Table.get, h]
  show runAlone (ExceptT.bindCont _ ((s.workflows.get id).mapError _)) s = _
  rw [hget]
  rfl

/-- What comes of a text that can be imported. -/
theorem runAlone_importWorkflow {text : String} {w : Workflow} (htext : importable? text = some w)
    (s : State η) :
    (importWorkflow text).runAlone s =
      let result := Table.insert workflowFormat (s.imported w).id (s.imported w)
        (s.workflows, s.storage)
      ⟨.ok ((result.1.map fun () => s.imported w).mapError EngineError.database).toOption,
        { s.takeId.2.now.2 with workflows := result.2.1, storage := result.2.2 }, []⟩ := by
  rw [importWorkflow, htext]
  rfl

theorem importWorkflow_of_works {s : State η} {text : String} {w : Workflow}
    (htext : importable? text = some w) (hworks : s.workflows.Works s.storage)
    (hnew : s.workflows.rows.get? (s.imported w).id = none) :
    ∃ rows storage, (importWorkflow text).runAlone s =
        ⟨.ok (some (s.imported w)),
          { s.takeId.2.now.2 with workflows := { s.workflows with rows }, storage }, []⟩ ∧
      rows.entries = s.workflows.rows.entries ++ [((s.imported w).id, s.imported w)] ∧
      Table.Saved workflowFormat { s.workflows with rows } storage := by
  obtain ⟨storage, hinsert, hsaved⟩ :=
    Table.insert_of_works workflowFormat (s.imported w).id (s.imported w) hworks
  refine ⟨_, storage, ?_, setEntry_fresh _ (Dict.get?_eq_none_iff.mp hnew), hsaved⟩
  rw [runAlone_importWorkflow htext, hinsert]
  rfl

/-- Of a stored workflow that is sound and not nested too deep there is an export, and wherever it
is imported the workflow itself is stored once more, but for its identifier and the time at which it
was made. It comes after the rows that were there, and these stay as they are, like everything else
but the supplies that an identifier and a time are taken from. -/
theorem imported_as_exported {s : State η} {id : Uuid} {w : Workflow}
    (hstored : s.workflows.rows.get? id = some w) (hgraph : w.checkGraph = .ok ())
    (hreads : w.ReadsBack) (hdepth : w.toJson.depth < Document.nestingLimit) {t : State θ}
    (hworks : t.workflows.Works t.storage)
    (hnew : t.workflows.rows.get? (t.imported w).id = none) :
    ∃ text rows storage,
      (exportWorkflow id).run.runAlone s = ⟨.ok (.ok text), s, []⟩ ∧
      (importWorkflow text).runAlone t =
        ⟨.ok (some (t.imported w)),
          { t.takeId.2.now.2 with workflows := { t.workflows with rows }, storage }, []⟩ ∧
      rows.entries = t.workflows.rows.entries ++ [((t.imported w).id, t.imported w)] ∧
      Table.Saved workflowFormat { t.workflows with rows } storage := by
  obtain ⟨rows, storage, himport⟩ :=
    importWorkflow_of_works (importable?_pretty hgraph hreads hdepth) hworks hnew
  exact ⟨_, rows, storage, exportWorkflow_stored hstored, himport⟩

namespace Lantern

def workflow : Workflow where
  id := ⟨7⟩
  name := "lantern \"west\""
  description := some ""
  enabled := false
  trigger := .event "dusk" (some ⟨"level", .lessOrEqual, "3"⟩)
  nodes := [⟨"a", "log", "say", ⟨Double.zero, Double.zero.neg⟩,
      .object [("lines", .array [.int 3, .null])], true⟩,
    ⟨"b", "delay", "wait", Point.origin, .null, false⟩]
  connections := [⟨"c", "a", "b", some "out", none⟩]
  vars := Dict.empty.insert "z" (.real Double.zero.neg)
  createdAt := ⟨1700000000, 5000000⟩
  lastRun := some ⟨1700000100, 0⟩
  runCount := 2

def state : State Unit :=
  { State.start Session.Lamp.world with
    workflows := ⟨"workflows", true, Dict.empty.insert ⟨7⟩ workflow⟩ }

theorem readsBack_workflow : workflow.ReadsBack where
  nodes node h := by
    rcases List.mem_pair.mp h with rfl | rfl
    · exact ⟨by decide +kernel, by decide +kernel,
        ⟨⟨⟨⟨by decide, by decide⟩, trivial, trivial⟩, trivial⟩, rfl⟩⟩
    · exact ⟨by decide +kernel, by decide +kernel, trivial, rfl⟩
  vars := List.forall_mem_singleton.mpr
    ⟨show Double.zero.neg.ReadsBack by decide +kernel, rfl⟩
  createdAt := by decide +kernel
  lastRun t ht := by
    obtain rfl := Option.some.inj ht
    decide +kernel

theorem imported_as_exported_lantern :
    ∃ text rows storage, (exportWorkflow ⟨7⟩).run.runAlone state = ⟨.ok (.ok text), state, []⟩ ∧
      (importWorkflow text).runAlone state =
        ⟨.ok (some (state.imported workflow)),
          { state.takeId.2.now.2 with
            workflows := ⟨"workflows", true, rows⟩, storage }, []⟩ ∧
      rows.entries = [(⟨7⟩, workflow), (⟨0⟩, state.imported workflow)] ∧
      storage.files.get? "workflows.json" = some (Table.fileText workflowFormat rows) := by
  have hstored : state.workflows.rows.get? ⟨7⟩ = some workflow := rfl
  obtain ⟨text, rows, storage, hexport, himport, hrows, hsaved⟩ :=
    imported_as_exported (t := state) hstored (by decide) readsBack_workflow (by decide +kernel)
      (fun _ => ⟨rfl, rfl, rfl⟩) rfl
  exact ⟨text, rows, storage, hexport, himport, hrows, hsaved rfl⟩

end Lantern

end Automation.Engine
