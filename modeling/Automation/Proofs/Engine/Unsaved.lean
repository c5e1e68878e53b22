import Automation.Proofs.Engine.Graphs

/-!
# Changes that cannot be saved

The stores change their rows first and save them then, and nothing is taken back. So an operation
that fails because it cannot save has changed the rows as it does when it can; only the files have
not followed.
-/
namespace Automation

/-- A change of a table that fails only if its row is missing, whatever the storage, or if what it
makes of the rows cannot be saved. -/
structure Table.SavesLast {α β : Type} (change : Table.Change α β) : Prop where
  unsaved : ∀ table storage cause, (change (table, storage)).1 = .error (.io cause) →
    (change (table, storage)).2.2 = storage ∧ ∀ working, table.Works working →
      ∃ result after, change (table, working) = (.ok result, (change (table, storage)).2.1, after)
  sound : ∀ table storage fault, (change (table, storage)).1 ≠ .error (.corrupt fault)

namespace Table

variable {α β : Type}

theorem save_unsaved (format : RowFormat α) (result : β) (table : Table α) (storage : Storage) :
    (Table.save format result (table, storage)).1 = .ok result ∨
      ∃ cause, Table.save format result (table, storage) =
        (.error (.io cause), table, storage) := by
  rcases save_cases format result table storage with ⟨after, hsave, -⟩ | hsave
  · exact Or.inl (by rw [hsave])
  · exact Or.inr hsave

theorem savesLast_of_save {format : RowFormat α} {change : Table.Change α β}
    (h : ∀ table : Table α,
      (∀ storage, change (table, storage) = (.error .notFound, table, storage)) ∨
      ∃ result rows, ∀ storage, change (table, storage) =
        Table.save format result ({ table with rows }, storage)) : SavesLast change := by
  constructor
  · intro table storage cause hfail
    rcases h table with hmissing | ⟨result, rows, hchange⟩
    · rw [hmissing] at hfail
      cases hfail
    · rw [hchange] at hfail ⊢
      rcases save_unsaved format result { table with rows } storage with hok | ⟨_, hsave⟩
      · rw [hok] at hfail
        cases hfail
      · rw [hsave]
        refine ⟨rfl, fun working hworks => ?_⟩
        obtain ⟨after, hafter, -⟩ :=
          @save_of_works _ _ format result { table with rows } working hworks
        exact ⟨result, after, (hchange working).trans hafter⟩
  · intro table storage fault hfail
    rcases h table with hmissing | ⟨result, rows, hchange⟩
    · rw [hmissing] at hfail
      cases hfail
    · rw [hchange] at hfail
      rcases save_unsaved format result { table with rows } storage with hok | ⟨_, hsave⟩
      · rw [hok] at hfail
        cases hfail
      · rw [hsave] at hfail
        cases hfail

theorem savesLast_insert (format : RowFormat α) (id : Uuid) (row : α) :
    SavesLast (Table.insert format id row) :=
  savesLast_of_save fun table => Or.inr ⟨(), table.rows.insert id row, fun _ => rfl⟩

theorem savesLast_update (format : RowFormat α) (id : Uuid) (change : α → β × α) :
    SavesLast (Table.update format id change) := by
  refine @savesLast_of_save _ _ format _ fun table => ?_
  cases hrow : table.rows.get? id with
  | none => exact Or.inl fun storage => update_of_none format change storage hrow
  | some row => exact Or.inr ⟨_, _, fun storage => update_of_some format change storage hrow⟩

theorem savesLast_delete (format : RowFormat α) (id : Uuid) :
    SavesLast (Table.delete format id) := by
  refine @savesLast_of_save _ _ format _ fun table => ?_
  cases hrow : table.rows.get? id with
  | none => exact Or.inl fun storage => delete_of_none format storage hrow
  | some row => exact Or.inr ⟨_, _, fun storage => delete_of_some format storage hrow⟩

end Table

namespace Engine

open Routine

variable {η α β γ δ : Type}

/-- The storage works for both tables. -/
structure State.Works (s : State η) (storage : Storage) : Prop where
  scripts : s.scripts.Works storage
  workflows : s.workflows.Works storage

/-- A routine with results that say it could not save. When it ends with one of them, the files are
as they were, and everything else is as the routine leaves it when the storage works. -/
def Lingers (p : Routine (State η) α) (unsaved : α → Prop) : Prop :=
  ∀ s a, (p.runAlone s).outcome = .ok a → unsaved a →
    (p.runAlone s).state.storage = s.storage ∧ ∀ working, s.Works working →
      ∃ result after, p.runAlone { s with storage := working } =
        ⟨.ok result, { (p.runAlone s).state with storage := after }, []⟩ ∧ ¬ unsaved result

/-- An answer that says that the rows could not be saved. -/
def IsUnsaved (answer : Except EngineError α) : Prop :=
  ∃ cause, answer = .error (.database cause)

section Changes

variable {s : State η} {cause : PathError}

theorem unsaved_changeScripts {change : Table.Change Script β} (h : Table.SavesLast change)
    (hfail : (s.changeScripts change).1 = .error (.io cause)) :
    (s.changeScripts change).2.storage = s.storage ∧ ∀ working, s.Works working →
      ∃ result after, State.changeScripts change { s with storage := working } =
        (.ok result, { (s.changeScripts change).2 with storage := after }) := by
  obtain ⟨hstorage, hworking⟩ := h.unsaved s.scripts s.storage cause hfail
  refine ⟨hstorage, fun working hworks => ?_⟩
  obtain ⟨result, after, hchange⟩ := hworking working hworks.scripts
  refine ⟨result, after, ?_⟩
  rw [State.changeScripts]
  dsimp only
  rw [hchange]
  rfl

theorem unsaved_changeWorkflows {change : Table.Change Workflow β} (h : Table.SavesLast change)
    (hfail : (s.changeWorkflows change).1 = .error (.io cause)) :
    (s.changeWorkflows change).2.storage = s.storage ∧ ∀ working, s.Works working →
      ∃ result after, State.changeWorkflows change { s with storage := working } =
        (.ok result, { (s.changeWorkflows change).2 with storage := after }) := by
  obtain ⟨hstorage, hworking⟩ := h.unsaved s.workflows s.storage cause hfail
  refine ⟨hstorage, fun working hworks => ?_⟩
  obtain ⟨result, after, hchange⟩ := hworking working hworks.workflows
  refine ⟨result, after, ?_⟩
  rw [State.changeWorkflows]
  dsimp only
  rw [hchange]
  rfl

end Changes

/-- One commit that can fail because it cannot save. -/
theorem lingers_attempt {step : State η → Except EngineError α × State η}
    (h : ∀ s, IsUnsaved (step s).1 → (step s).2.storage = s.storage ∧
      ∀ working, s.Works working → ∃ a after,
        step { s with storage := working } = (.ok a, { (step s).2 with storage := after })) :
    Lingers (attempt step).run IsUnsaved := by
  intro s answer hanswer hunsaved
  obtain rfl : (step s).1 = answer := Except.ok.inj hanswer
  obtain ⟨hstorage, hworking⟩ := h s hunsaved
  refine ⟨hstorage, fun working hworks => ?_⟩
  obtain ⟨a, after, hstep⟩ := hworking working hworks
  refine ⟨.ok a, after, ?_, fun ⟨cause, he⟩ => nomatch he⟩
  show (⟨.ok (step { s with storage := working }).1, (step { s with storage := working }).2, []⟩ :
    Ending _ _) = _
  rw [hstep]
  rfl

/-- How the answer of a table is told: a failure to save as such, and no other failure as one. -/
structure Tells (change : Table.Change γ β) (tell : Except StorageError β → Except EngineError α) :
    Prop where
  ok : ∀ result, ∃ a, tell (.ok result) = .ok a
  unsaved : ∀ table storage, IsUnsaved (tell (change (table, storage)).1) →
    ∃ cause, (change (table, storage)).1 = .error (.io cause)

section Tells

variable {change : Table.Change γ β} {missing : EngineError}

/-- A missing row has an error of its own. -/
theorem tells_missing (h : Table.SavesLast change) (hm : ∀ cause, missing ≠ .database cause)
    (g : β → α) : Tells change fun answer => (answer.map g).mapError (.ofStorage missing) := by
  refine ⟨fun result => ⟨g result, rfl⟩, fun table storage ⟨cause, he⟩ => ?_⟩
  have hsound := h.sound table storage
  generalize (change (table, storage)).1 = answer at he hsound ⊢
  cases answer with
  | ok result => cases he
  | error e =>
    cases e with
    | notFound => exact absurd (Except.error.inj he) (hm cause)
    | io cause => exact ⟨cause, rfl⟩
    | corrupt fault => exact absurd rfl (hsound fault)

theorem tells_missing_id (h : Table.SavesLast change) (hm : ∀ cause, missing ≠ .database cause) :
    Tells change fun answer => answer.mapError (.ofStorage missing) := by
  have htells := tells_missing h hm id
  simp only [Except.map_id, id] at htells
  exact htells

/-- A row that is set need not be there. -/
theorem tells_insert (format : RowFormat γ) (id : Uuid) (row : γ) (g : Unit → α) :
    Tells (Table.insert format id row) fun answer => (answer.map g).mapError .database := by
  refine ⟨fun result => ⟨g result, rfl⟩, fun table storage ⟨cause, he⟩ => ?_⟩
  rcases Table.save_unsaved format () { table with rows := table.rows.insert id row } storage with
    hsave | ⟨cause, hsave⟩
  · rw [show (Table.insert format id row (table, storage)).1 = .ok () from hsave] at he
    cases he
  · exact ⟨cause, congrArg Prod.fst hsave⟩

end Tells

section Stores

variable {tell : Except StorageError β → Except EngineError α}

/-- A change of the scripts. -/
theorem lingers_changeScripts {change : Table.Change Script β} (h : Table.SavesLast change)
    (ht : Tells change tell) :
    Lingers (attempt fun s : State η =>
      (tell (s.changeScripts change).1, (s.changeScripts change).2)).run IsUnsaved := by
  refine lingers_attempt fun s hunsaved => ?_
  obtain ⟨cause, hfail⟩ := ht.unsaved s.scripts s.storage hunsaved
  obtain ⟨hstorage, hworking⟩ := unsaved_changeScripts h hfail
  refine ⟨hstorage, fun working hworks => ?_⟩
  obtain ⟨result, after, hchange⟩ := hworking working hworks
  obtain ⟨a, ha⟩ := ht.ok result
  exact ⟨a, after, by rw [hchange, ha]⟩

/-- A change of the workflows. -/
theorem lingers_changeWorkflows {change : Table.Change Workflow β} (h : Table.SavesLast change)
    (ht : Tells change tell) :
    Lingers (attempt fun s : State η =>
      (tell (s.changeWorkflows change).1, (s.changeWorkflows change).2)).run IsUnsaved := by
  refine lingers_attempt fun s hunsaved => ?_
  obtain ⟨cause, hfail⟩ := ht.unsaved s.workflows s.storage hunsaved
  obtain ⟨hstorage, hworking⟩ := unsaved_changeWorkflows h hfail
  refine ⟨hstorage, fun working hworks => ?_⟩
  obtain ⟨result, after, hchange⟩ := hworking working hworks
  obtain ⟨a, ha⟩ := ht.ok result
  exact ⟨a, after, by rw [hchange, ha]⟩

end Stores

theorem lingers_updateScript (id : Uuid) (change : Script → Script) :
    Lingers (updateScript id change : Operation η Script).run IsUnsaved := by
  have hsaves := Table.savesLast_update scriptFormat id fun script =>
    (change script, change script)
  exact lingers_changeScripts hsaves (tells_missing_id hsaves nofun)

theorem lingers_deleteScript (id : Uuid) :
    Lingers (deleteScript id : Operation η Unit).run IsUnsaved := by
  have hsaves := Table.savesLast_delete scriptFormat id
  have hmissing : ∀ cause, EngineError.scriptNotFound id ≠ .database cause := nofun
  exact lingers_changeScripts hsaves (tells_missing hsaves hmissing fun _ => ())

theorem lingers_changeWorkflow (id : Uuid) (change : Workflow → β × Workflow) :
    Lingers (changeWorkflow id change : Operation η β).run IsUnsaved := by
  have hsaves := Table.savesLast_update workflowFormat id change
  exact lingers_changeWorkflows hsaves (tells_missing_id hsaves nofun)

theorem lingers_deleteWorkflow (id : Uuid) :
    Lingers (deleteWorkflow id : Operation η Unit).run IsUnsaved := by
  have hsaves := Table.savesLast_delete workflowFormat id
  have hmissing : ∀ cause, EngineError.workflowNotFound id ≠ .database cause := nofun
  exact lingers_changeWorkflows hsaves (tells_missing hsaves hmissing fun _ => ())

theorem lingers_insertWorkflow (w : Workflow) :
    Lingers (insertWorkflow w : Operation η Workflow).run IsUnsaved := by
  have htells := tells_insert workflowFormat w.id w fun () => w
  exact lingers_changeWorkflows (Table.savesLast_insert workflowFormat w.id w) htells

/-- A commit that neither saves nor looks at the storage. -/
structure Blind (step : State η → Except EngineError α × State η) : Prop where
  answer : ∀ s, ¬ IsUnsaved (step s).1
  storage : ∀ s storage, step { s with storage } = ((step s).1, { (step s).2 with storage })
  scripts : ∀ s, (step s).2.scripts = s.scripts
  workflows : ∀ s, (step s).2.workflows = s.workflows

theorem blind_fresh (make : Uuid → Instant → α) :
    Blind fun s : State η =>
      ((.ok (make s.takeId.1 s.takeId.2.now.1), s.takeId.2.now.2) : Except EngineError α × _) :=
  ⟨fun _ ⟨_, he⟩ => (nomatch he), fun _ _ => rfl, fun _ => rfl, fun _ => rfl⟩

theorem blind_getWorkflow (id : Uuid) :
    Blind fun s : State η =>
      ((s.workflows.get id).mapError (.ofStorage (.workflowNotFound id)), s) := by
  refine ⟨fun s ⟨cause, he⟩ => ?_, fun _ _ => rfl, fun _ => rfl, fun _ => rfl⟩
  dsimp only [Table.get] at he
  split at he <;> cases he

/-- What comes before the change does not touch the storage. -/
theorem lingers_bind {step : State η → Except EngineError α × State η}
    {f : α → Operation η β} (h : Blind step) (hf : ∀ a, Lingers (f a).run IsUnsaved) :
    Lingers (attempt step >>= f).run IsUnsaved := by
  intro s answer hanswer hunsaved
  have hrun : ∀ s, (attempt step >>= f).run.runAlone s =
      (ExceptT.bindCont f (step s).1).runAlone (step s).2 := fun _ => rfl
  rw [hrun] at hanswer ⊢
  cases hstep : (step s).1 with
  | error e =>
    rw [hstep] at hanswer
    obtain rfl := Except.ok.inj hanswer
    obtain ⟨cause, he⟩ := hunsaved
    obtain rfl := Except.error.inj he
    exact absurd ⟨cause, hstep⟩ (h.answer s)
  | ok a =>
    rw [hstep] at hanswer
    have hstorage : (step s).2.storage = s.storage :=
      congrArg (fun pair => pair.2.storage) (h.storage s s.storage)
    obtain ⟨hkeep, hworking⟩ := hf a (step s).2 answer hanswer hunsaved
    refine ⟨hkeep.trans hstorage, fun working hworks => ?_⟩
    rw [hrun, h.storage, hstep]
    exact hworking working ⟨h.scripts s ▸ hworks.scripts, h.workflows s ▸ hworks.workflows⟩

/-- What comes after the change only tells of it. -/
theorem lingers_tell {p : Operation η α} {f : α → Operation η β} (h : Lingers p.run IsUnsaved)
    (hf : ∀ s a, (p.run.runAlone s).outcome = .ok (.ok a) →
      ∃ answer, (f a).run = Routine.done answer ∧ ¬ IsUnsaved answer) :
    Lingers (p >>= f).run IsUnsaved := by
  intro s answer hanswer hunsaved
  have hrun : ∀ s, (p >>= f).run.runAlone s =
      (p.run.runAlone s).andThen fun result s => (ExceptT.bindCont f result).runAlone s :=
    fun s => runAlone_bind p.run (ExceptT.bindCont f) s
  rw [hrun] at hanswer ⊢
  have hlingers := h s
  have htell := hf s
  generalize p.run.runAlone s = ending at hanswer hlingers htell ⊢
  obtain ⟨outcome, left, pauses⟩ := ending
  cases outcome with
  | error message => cases hanswer
  | ok result =>
    cases result with
    | ok a =>
      obtain ⟨told, hdone, htold⟩ := htell a rfl
      have hcont : (ExceptT.bindCont f (.ok a) : Routine _ _) = .done told := hdone
      rw [Ending.andThen_ok, hcont] at hanswer
      obtain rfl : told = answer := Except.ok.inj hanswer
      exact absurd hunsaved htold
    | error e =>
      obtain rfl : Except.error e = answer := Except.ok.inj hanswer
      obtain ⟨cause, he⟩ := hunsaved
      obtain rfl := Except.error.inj he
      obtain ⟨hkeep, hworking⟩ := hlingers _ rfl ⟨cause, rfl⟩
      refine ⟨hkeep, fun working hworks => ?_⟩
      obtain ⟨result, after, hsaved, hresult⟩ := hworking working hworks
      rw [hrun, hsaved, Ending.andThen_ok]
      cases result with
      | ok a =>
        obtain ⟨told, hdone, htold⟩ := hf _ a (congrArg Ending.outcome hsaved)
        have hcont : (ExceptT.bindCont f (.ok a) : Routine _ _) = .done told := hdone
        rw [hcont]
        exact ⟨told, after, rfl, htold⟩
      | error e =>
        refine ⟨.error e, after, rfl, fun ⟨cause, he⟩ => hresult ⟨cause, ?_⟩⟩
        rw [Except.error.inj he]

/-- Something new is made first, and stored then. -/
theorem lingers_fresh (make : Uuid → Instant → α) {f : α → Operation η β}
    (hf : ∀ a, Lingers (f a).run IsUnsaved) : Lingers (fresh make >>= f).run IsUnsaved :=
  lingers_bind (blind_fresh make) hf

theorem lingers_createScript (name code : String) :
    Lingers (createScript name code : Operation η Script).run IsUnsaved := by
  refine lingers_attempt fun s hunsaved => ?_
  let script := Script.create s.takeId.1 s.takeId.2.now.1 name code
  have htells := tells_insert scriptFormat script.id script fun () => script
  obtain ⟨cause, hfail⟩ := htells.unsaved s.scripts s.storage hunsaved
  obtain ⟨hstorage, hworking⟩ := @unsaved_changeScripts _ _ s.takeId.2.now.2 cause _
    (Table.savesLast_insert scriptFormat script.id script) hfail
  refine ⟨hstorage, fun working hworks => ?_⟩
  obtain ⟨result, after, hchange⟩ := hworking working ⟨hworks.scripts, hworks.workflows⟩
  refine ⟨script, after, ?_⟩
  show (((State.changeScripts (Table.insert scriptFormat script.id script)
      { s.takeId.2.now.2 with storage := working }).1.map fun () => script).mapError
        EngineError.database,
    (State.changeScripts (Table.insert scriptFormat script.id script)
      { s.takeId.2.now.2 with storage := working }).2) = _
  rw [hchange]
  rfl

theorem lingers_importWorkflow {text : String} {w : Workflow} (h : importable? text = some w) :
    Lingers (importWorkflow text : Routine (State η) _) (· = none) := by
  intro s answer hanswer hnone
  let stored : Workflow := { w with id := s.takeId.1, createdAt := s.takeId.2.now.1 }
  let insertion := Table.insert workflowFormat stored.id stored
  let tell (answer : Except StorageError Unit) : Except EngineError Workflow :=
    (answer.map fun () => stored).mapError .database
  have htells : Tells insertion tell := tells_insert workflowFormat stored.id stored _
  have hrun : ∀ storage, (importWorkflow text).runAlone { s with storage } =
      ⟨.ok (tell (State.changeWorkflows insertion { s.takeId.2.now.2 with storage }).1).toOption,
        (State.changeWorkflows insertion { s.takeId.2.now.2 with storage }).2, []⟩ := by
    intro storage
    rw [importWorkflow, h]
    rfl
  have hs : (importWorkflow text).runAlone s =
      ⟨.ok (tell (s.takeId.2.now.2.changeWorkflows insertion).1).toOption,
        (s.takeId.2.now.2.changeWorkflows insertion).2, []⟩ := hrun s.storage
  rw [hs] at hanswer ⊢
  have hunsaved : IsUnsaved (tell (s.takeId.2.now.2.changeWorkflows insertion).1) := by
    subst hnone
    have hoption := Except.ok.inj hanswer
    generalize (s.takeId.2.now.2.changeWorkflows insertion).1 = result at hoption ⊢
    cases result with
    | ok _ => cases hoption
    | error e => exact ⟨e, rfl⟩
  obtain ⟨cause, hfail⟩ := htells.unsaved s.workflows s.storage hunsaved
  obtain ⟨hstorage, hworking⟩ := @unsaved_changeWorkflows _ _ s.takeId.2.now.2 cause _
    (Table.savesLast_insert workflowFormat stored.id stored) hfail
  refine ⟨hstorage, fun working hworks => ?_⟩
  obtain ⟨result, after, hchange⟩ := hworking working ⟨hworks.scripts, hworks.workflows⟩
  refine ⟨some stored, after, ?_, nofun⟩
  rw [hrun, hchange]
  rfl

theorem lingers_addNode (engine : Engine η) (id : Uuid) (templateId : String) (position : Point) :
    Lingers (engine.addNode id templateId position).run IsUnsaved := by
  unfold addNode
  cases engine.catalog.get? templateId with
  | none =>
    refine lingers_bind ⟨fun _ ⟨_, he⟩ => (nomatch he), fun _ _ => rfl, fun _ => rfl,
      fun _ => rfl⟩ fun _ => ?_
    refine lingers_bind (blind_getWorkflow id) fun _ => ?_
    rintro s _ ⟨⟩ ⟨cause, he⟩
    cases he
  | some template =>
    exact lingers_fresh _ fun node => lingers_tell (lingers_changeWorkflow id _)
      fun _ _ _ => ⟨.ok (some node), rfl, fun ⟨_, he⟩ => (nomatch he)⟩

theorem lingers_onNode (id : Uuid) (nodeId : String) (change : Workflow → Option Node × Workflow) :
    Lingers (do
      let node ← changeWorkflow id change
      orNodeNotFound id nodeId node : Operation η Node).run IsUnsaved := by
  refine lingers_tell (lingers_changeWorkflow id _) fun _ node _ => ?_
  cases node with
  | none => exact ⟨_, rfl, fun ⟨_, he⟩ => (nomatch he)⟩
  | some node => exact ⟨_, rfl, fun ⟨_, he⟩ => (nomatch he)⟩

/-- What a change returns is what it makes of some row. -/
theorem result_of_changeWorkflow {id : Uuid} {change : Workflow → β × Workflow} {s : State η}
    {result : β}
    (h : ((changeWorkflow id change : Operation η β).run.runAlone s).outcome = .ok (.ok result)) :
    ∃ w, result = (change w).1 := by
  have hanswer : (Table.update workflowFormat id change (s.workflows, s.storage)).1.mapError
      (EngineError.ofStorage (.workflowNotFound id)) = .ok result := Except.ok.inj h
  cases hrow : s.workflows.rows.get? id with
  | none =>
    rw [Table.update_of_none workflowFormat change s.storage hrow] at hanswer
    cases hanswer
  | some w =>
    rw [Table.update_of_some workflowFormat change s.storage hrow] at hanswer
    rcases Table.save_unsaved workflowFormat (change w).1
        { s.workflows with rows := s.workflows.rows.insert id (change w).2 } s.storage with
      hsave | ⟨cause, hsave⟩
    · rw [hsave] at hanswer
      exact ⟨w, (Except.ok.inj hanswer).symm⟩
    · rw [hsave] at hanswer
      cases hanswer

theorem lingers_connect (id : Uuid) (source target : String)
    (sourceHandle targetHandle : Option String) :
    Lingers (connect id source target sourceHandle targetHandle : Operation η Connection).run
      IsUnsaved := by
  refine lingers_fresh _ fun connection => lingers_tell (lingers_changeWorkflow id _)
    fun s result hresult => ?_
  obtain ⟨w, rfl⟩ := result_of_changeWorkflow hresult
  cases w.connect connection with
  | ok changed => exact ⟨_, rfl, fun ⟨_, he⟩ => (nomatch he)⟩
  | error e => exact ⟨_, rfl, fun ⟨_, he⟩ => (nomatch he)⟩

/-- The operations that change the stores, each with what it returns if it could not save. -/
inductive StoreOperation (engine : Engine η) :
    ∀ {α : Type}, Routine (State η) α → (α → Prop) → Prop where
  | createScript (name code : String) :
      StoreOperation engine (createScript name code).run IsUnsaved
  | updateCode (id : Uuid) (code : String) :
      StoreOperation engine (updateCode id code).run IsUnsaved
  | renameScript (id : Uuid) (name : String) :
      StoreOperation engine (renameScript id name).run IsUnsaved
  | setScriptEnabled (id : Uuid) (enabled : Bool) :
      StoreOperation engine (setScriptEnabled id enabled).run IsUnsaved
  | deleteScript (id : Uuid) : StoreOperation engine (deleteScript id).run IsUnsaved
  | createWorkflow (name : String) (description : Option String) (trigger : Trigger) :
      StoreOperation engine (createWorkflow name description trigger).run IsUnsaved
  | insertWorkflow (w : Workflow) : StoreOperation engine (insertWorkflow w).run IsUnsaved
  | updateWorkflow (id : Uuid) (patch : Workflow.Patch) :
      StoreOperation engine (updateWorkflow id patch).run IsUnsaved
  | deleteWorkflow (id : Uuid) : StoreOperation engine (deleteWorkflow id).run IsUnsaved
  | duplicateWorkflow (id : Uuid) : StoreOperation engine (duplicateWorkflow id).run IsUnsaved
  | addNode (id : Uuid) (templateId : String) (position : Point) :
      StoreOperation engine (engine.addNode id templateId position).run IsUnsaved
  | updateNode (id : Uuid) (nodeId : String) (patch : Node.Patch) :
      StoreOperation engine (updateNode id nodeId patch).run IsUnsaved
  | removeNode (id : Uuid) (nodeId : String) :
      StoreOperation engine (removeNode id nodeId).run IsUnsaved
  | connect (id : Uuid) (source target : String) (sourceHandle targetHandle : Option String) :
      StoreOperation engine (connect id source target sourceHandle targetHandle).run IsUnsaved
  | disconnect (id : Uuid) (connectionId : String) :
      StoreOperation engine (disconnect id connectionId).run IsUnsaved
  | setVariable (id : Uuid) (name : String) (value : Json) :
      StoreOperation engine (setVariable id name value).run IsUnsaved
  /-- Nothing comes of an import that cannot be stored. -/
  | importWorkflow {text : String} {w : Workflow} (h : importable? text = some w) :
      StoreOperation engine (importWorkflow text) (· = none)

/-- An operation that fails because it cannot save leaves the files as they were, and everything
else as it does when it can save. -/
theorem unsaved_lingers {engine : Engine η} {p : Routine (State η) α} {unsaved : α → Prop}
    (h : StoreOperation engine p unsaved) : Lingers p unsaved := by
  cases h with
  | createScript name code => exact lingers_createScript name code
  | updateCode id code => exact lingers_updateScript id _
  | renameScript id name => exact lingers_updateScript id _
  | setScriptEnabled id enabled => exact lingers_updateScript id _
  | deleteScript id => exact lingers_deleteScript id
  | createWorkflow name description trigger =>
    exact lingers_fresh _ fun w => lingers_insertWorkflow w
  | insertWorkflow w => exact lingers_insertWorkflow w
  | updateWorkflow id patch => exact lingers_changeWorkflow id _
  | deleteWorkflow id => exact lingers_deleteWorkflow id
  | duplicateWorkflow id =>
    exact lingers_bind (blind_getWorkflow id) fun w =>
      lingers_fresh _ fun copy => lingers_insertWorkflow copy
  | addNode id templateId position => exact lingers_addNode engine id templateId position
  | updateNode id nodeId patch => exact lingers_onNode id nodeId _
  | removeNode id nodeId => exact lingers_onNode id nodeId _
  | connect id source target sourceHandle targetHandle =>
    exact lingers_connect id source target sourceHandle targetHandle
  | disconnect id connectionId => exact lingers_changeWorkflow id _
  | setVariable id name value => exact lingers_changeWorkflow id _
  | importWorkflow h => exact lingers_importWorkflow h

namespace Broken

open Session

/-- An engine that was opened on an empty folder, which has been deleted since. -/
def broken : State Unit :=
  ⟨Lamp.world, Storage.gone, ⟨"scripts", true, Dict.empty⟩, ⟨"workflows", true, Dict.empty⟩,
    ExecutionLog.empty, 0⟩

def creation : Routine (State Unit) (Except EngineError Script) := (createScript "note" "").run

/-- The script that could not be saved is listed. -/
theorem listed_unsaved :
    State.load Lamp.world Storage.empty true = .ok { broken with storage := Storage.empty } ∧
    (creation.runAlone broken).outcome = .ok (.error (.database (.io .missing))) ∧
    (listScripts.runAlone broken).outcome = .ok [] ∧
    (listScripts.runAlone (creation.runAlone broken).state).outcome =
      .ok [Script.create ⟨0⟩ ⟨0, 0⟩ "note" ""] := by
  refine ⟨rfl, rfl, congrArg Except.ok List.mergeSort_nil, congrArg Except.ok ?_⟩
  exact List.mergeSort_singleton _

/-- The folder is still gone, and with a new one the script would have come out the same. -/
theorem unsaved_lingers_broken :
    StoreOperation Lamp.engine creation IsUnsaved ∧
    (creation.runAlone broken).state.storage = Storage.gone ∧
    ∃ result after, creation.runAlone { broken with storage := Storage.empty } =
      ⟨.ok result, { (creation.runAlone broken).state with storage := after }, []⟩ ∧
        ¬ IsUnsaved result := by
  have hcreation : StoreOperation Lamp.engine creation IsUnsaved := .createScript "note" ""
  have hlingers := unsaved_lingers hcreation broken _ rfl ⟨.io .missing, rfl⟩
  have hworks : ∀ name, Storage.empty.Accepts name := fun name => ⟨rfl, rfl, rfl⟩
  exact ⟨hcreation, hlingers.1,
    hlingers.2 Storage.empty ⟨fun _ => hworks _, fun _ => hworks _⟩⟩

end Broken

end Engine
end Automation
