import Automation.Proofs.Engine.Graphs
import Automation.Proofs.Exchange.Script
import Automation.Proofs.Table.File

/-!
# Opening an engine again

An engine that keeps its tables in a folder writes a table to its file with every change of a row.
When the folder is opened again, the scripts and workflows are what they were, provided that no
workflow is nested too deep: the file of a table is one object around its rows, so a workflow may be
nested one level less in a file than by itself. One that is nested deeper can be stored, and then
the folder cannot be opened again.
-/
namespace Automation

namespace Engine

variable {η : Type}

/-- The folder of an engine holds what its tables hold. -/
structure State.Kept (s : State η) : Prop where
  flat : s.storage.Flat
  scripts : s.scripts.Kept scriptFormat "scripts" s.storage
  workflows : s.workflows.Kept workflowFormat "workflows" s.storage

theorem Edit.kept {s s' : State η} (h : Edit s s') (hs : s.Kept) : s'.Kept := by
  cases h with
  | none hscripts hworkflows hstorage =>
    exact ⟨hstorage ▸ hs.flat, hscripts ▸ hstorage ▸ hs.scripts,
      hworkflows ▸ hstorage ▸ hs.workflows⟩
  | script h hworkflows =>
    obtain ⟨hkept, hflat, hothers⟩ := hs.scripts.edits hs.flat (by decide) h
    exact ⟨hflat, hkept, hworkflows ▸ hs.workflows.of_file (hothers _ (by decide))⟩
  | workflow h hscripts =>
    obtain ⟨hkept, hflat, hothers⟩ := hs.workflows.edits hs.flat (by decide) h
    exact ⟨hflat, hscripts ▸ hs.scripts.of_file (hothers _ (by decide)), hkept⟩

/-- An engine that is opened on an empty folder keeps its tables there. -/
theorem State.kept_of_load_empty {world : World η} {s : State η}
    (h : State.load world Storage.empty true = .ok s) : s.Kept := by
  obtain rfl := Except.ok.inj h
  exact ⟨⟨rfl, fun _ hfile => nomatch hfile⟩, ⟨rfl, rfl, Or.inr ⟨rfl, rfl⟩⟩,
    ⟨rfl, rfl, Or.inr ⟨rfl, rfl⟩⟩⟩

theorem returns_script {script : Script} (h : script.ReadsBack) :
    Table.Returns scriptFormat script := by
  refine ⟨Script.legible_toJson h, Script.decode_toJson h, fun _ _ => ?_⟩
  have hdepth := script.depth_toJson_le
  exact Nat.lt_of_le_of_lt (Nat.succ_le_succ hdepth) (by decide)

theorem returns_workflow {w : Workflow} (h : w.ReadsBack) : Table.Returns workflowFormat w :=
  ⟨Workflow.legible_toJson h, Workflow.decode_toJson h, fun _ hread =>
    Workflow.depth_of_decode (by decide) hread⟩

/-- What the rows of an engine hold of numbers, times and free-form values comes back from its
text. -/
structure State.ReadsBack (s : State η) : Prop where
  scripts : ∀ key script, s.scripts.rows.get? key = some script → script.ReadsBack
  workflows : ∀ key w, s.workflows.rows.get? key = some w → w.ReadsBack

section Opened

variable {s : State η}

theorem State.ReadsBack.returns_scripts (h : s.ReadsBack) :
    ∀ entry ∈ s.scripts.rows.entries, Table.Returns scriptFormat entry.2 :=
  fun _ hentry => returns_script (h.scripts _ _ (Dict.get?_eq_some_iff.mpr hentry))

theorem State.ReadsBack.returns_workflows (h : s.ReadsBack) :
    ∀ entry ∈ s.workflows.rows.entries, Table.Returns workflowFormat entry.2 :=
  fun _ hentry => returns_workflow (h.workflows _ _ (Dict.get?_eq_some_iff.mpr hentry))

/-- No workflow is nested so deep that it cannot be read inside its file. -/
def State.Shallow (s : State η) : Prop :=
  ∀ key w, s.workflows.rows.get? key = some w → w.toJson.depth + 1 < Document.nestingLimit

theorem State.Kept.load (h : s.Kept) (hreads : s.ReadsBack) (hs : s.Shallow) (world : World η) :
    State.load world s.storage true =
      .ok ⟨world, s.storage, s.scripts, s.workflows, ExecutionLog.empty, 0⟩ := by
  have hscripts := h.scripts.load h.flat hreads.returns_scripts fun entry _ =>
    Nat.lt_of_le_of_lt (Nat.succ_le_succ entry.2.depth_toJson_le) (by decide)
  have hworkflows := h.workflows.load h.flat hreads.returns_workflows fun entry hentry =>
    hs _ _ (Dict.get?_eq_some_iff.mpr hentry)
  rw [State.load, hscripts, hworkflows]
  rfl

theorem State.Kept.shallow_of_load (h : s.Kept) (hreads : s.ReadsBack) {world : World η}
    {opened : State η} (hload : State.load world s.storage true = .ok opened) : s.Shallow := by
  intro key w hw
  rw [State.load] at hload
  obtain ⟨_, -, hload⟩ := ok_of_bind hload
  obtain ⟨_, hload, -⟩ := ok_of_bind hload
  have hdepth := h.workflows.depth_of_load h.flat hreads.returns_workflows (ok_of_mapError hload)
  exact hdepth (key, w) (Dict.get?_eq_some_iff.mp hw)

end Opened

/-- After any session on a folder, the folder can be opened again exactly if no workflow is nested
so deep that the file around it cannot be read; and then all scripts and workflows are what they
were. -/
theorem Session.reopens_iff {engine : Engine η} {s : State η} (hs : s.Kept) {t : Session η}
    (ht : Session.Reaches engine s t) (hreads : t.state.ReadsBack) (world : World η) :
    ((∃ opened, State.load world t.state.storage true = .ok opened) ↔ t.state.Shallow) ∧
      ∀ opened, State.load world t.state.storage true = .ok opened →
        opened.scripts = t.state.scripts ∧ opened.workflows = t.state.workflows ∧
          opened.Kept := by
  have hkept := ht.keeps (fun _ _ hedit => hedit.kept) hs
  refine ⟨⟨fun ⟨opened, hload⟩ => hkept.shallow_of_load hreads hload,
    fun hshallow => ⟨_, hkept.load hreads hshallow world⟩⟩, fun opened hload => ?_⟩
  have hshallow := hkept.shallow_of_load hreads hload
  obtain rfl := Except.ok.inj ((hkept.load hreads hshallow world).symm.trans hload)
  exact ⟨rfl, rfl, hkept.flat, hkept.scripts, hkept.workflows⟩

namespace Session.Cellar

/-- A list in a list, so many levels deep. -/
def nested : Nat → Json
  | 0 => .null
  | n + 1 => .array [nested n]

theorem readsBack_nested (n : Nat) : (nested n).ReadsBack := by
  induction n with
  | zero => exact ⟨trivial, rfl⟩
  | succ n ih =>
    refine ⟨⟨ih.1, trivial⟩, ?_⟩
    rw [nested, Json.sorted, Json.sortedItems, ih.2, Json.sortedItems]

/-- The state of an engine that has been opened on an empty folder. -/
def opened : State Unit :=
  ⟨Lamp.world, Storage.empty, ⟨"scripts", true, Dict.empty⟩, ⟨"workflows", true, Dict.empty⟩,
    ExecutionLog.empty, 0⟩

/-- A workflow has been made, and a variable has been set to a value nested 125 levels. -/
def deepened : Session Unit :=
  (((((start opened).afterCall Lamp.engine (.createWorkflow "cellar" none .manual)).afterTurn
    0).afterTurn 0).afterCall Lamp.engine (.setVariable ⟨0⟩ "steps" (nested 125))).afterTurn 1

def cellar : Workflow :=
  (Workflow.create ⟨0⟩ ⟨0, 0⟩ "cellar" .manual).setVariable "steps" (nested 125)

theorem reaches_deepened : Reaches Lamp.engine opened deepened :=
  ReachesFresh.reaches (((((ReachesFresh.call .refl _).turn 0 ⟨by decide, by decide⟩).turn 0
    ⟨by decide, by decide⟩).call _).turn 1 ⟨by decide, by decide⟩)

theorem kept_opened : opened.Kept := State.kept_of_load_empty rfl

theorem readsBack_deepened : deepened.state.ReadsBack := by
  constructor
  · intro key script h
    cases h
  · intro key w h
    have hentries : deepened.state.workflows.rows.entries = [(⟨0⟩, cellar)] := rfl
    have hmem := Dict.get?_eq_some_iff.mp h
    rw [hentries] at hmem
    obtain rfl := (Prod.mk.inj (List.mem_singleton.mp hmem)).2
    refine ⟨List.forall_mem_nil _, ?_, by decide +kernel, fun _ ht => nomatch ht⟩
    exact List.forall_mem_singleton.mpr (readsBack_nested 125)

/-- All that was asked for was done, and the folder cannot be opened again. -/
theorem reopens_iff_cellar : Reaches Lamp.engine opened deepened ∧
    deepened.calls = [.done true, .done true] ∧
    ¬ ∃ s', State.load Lamp.world deepened.state.storage true = .ok s' := by
  refine ⟨reaches_deepened, rfl, fun h => ?_⟩
  have hshallow :=
    (reopens_iff kept_opened reaches_deepened readsBack_deepened Lamp.world).1.mp h
  have hcellar : cellar.toJson.depth + 1 < Document.nestingLimit := hshallow ⟨0⟩ cellar rfl
  exact absurd hcellar (by decide +kernel)

end Session.Cellar

end Engine
end Automation
