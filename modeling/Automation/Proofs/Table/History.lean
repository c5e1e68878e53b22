import Mathlib.Data.List.DropRight
import Automation.Proofs.Table.File

/-!
# The file under a table

Rows and file along a history of changes, any of which may find a storage that does not take the
file. The rows take every change that finds its row; the file follows with every change that could
be saved and catches up then on those that could not.
-/
namespace Automation

variable {α β γ : Type}

/-- A change of a table with another name for its result. -/
def Table.answering (f : β → γ) (change : Table.Change α β) : Table.Change α γ := fun before =>
  ((change before).1.map f, (change before).2)

/-- A change that a table is asked for. -/
inductive Mutation (α β : Type) where
  | insert (id : Uuid) (row : α)
  | update (id : Uuid) (change : α → β × α)
  | delete (id : Uuid)

namespace Mutation

/-- What a table returns for a change. -/
inductive Answer (α β : Type) where
  | inserted
  | updated (result : β)
  | deleted (row : α)
  deriving DecidableEq

/-- The change as the table makes it. -/
def run (format : RowFormat α) : Mutation α β → Table.Change α (Answer α β)
  | insert id row => Table.answering (fun _ => .inserted) (Table.insert format id row)
  | update id change => Table.answering .updated (Table.update format id change)
  | delete id => Table.answering .deleted (Table.delete format id)

/-- What the change returns for rows that have what it asks for. -/
def answer? (rows : Uuid → Option α) : Mutation α β → Option (Answer α β)
  | insert _ _ => some .inserted
  | update id change => (rows id).map fun row => .updated (change row).1
  | delete id => (rows id).map .deleted

/-- The rows after the change: all as they were but the one that it is about. -/
def apply (rows : Uuid → Option α) : Mutation α β → Uuid → Option α
  | insert id row => Function.update rows id (some row)
  | update id change => Function.update rows id ((rows id).map fun row => (change row).2)
  | delete id => Function.update rows id none

theorem apply_of_missing {rows : Uuid → Option α} {mutation : Mutation α β}
    (h : mutation.answer? rows = none) : mutation.apply rows = rows := by
  cases mutation with
  | insert id row => cases h
  | update id change =>
    have hrow : rows id = none := Option.map_eq_none_iff.mp h
    rw [apply, hrow, Option.map_none, ← hrow, Function.update_eq_self]
  | delete id =>
    have hrow : rows id = none := Option.map_eq_none_iff.mp h
    rw [apply, ← hrow, Function.update_eq_self]

end Mutation

namespace Table

/-- A change that was asked for, and what came of it. -/
structure Event (α β : Type) where
  mutation : Mutation α β
  answer : Except StorageError (Mutation.Answer α β)

/-- The change was made, and the file was written. -/
def Event.isSaved (event : Event α β) : Bool := event.answer.toBool

/-- The changes that a table and its storage have gone through. Between two of them anything may
happen to the storage, but nobody else touches the file of the table. -/
inductive History (format : RowFormat α) (first : Table α × Storage) :
    List (Event α β) → Table α × Storage → Prop where
  | start : History format first [] first
  | mutate {log : List (Event α β)} {now : Table α × Storage} (mutation : Mutation α β)
      (h : History format first log now) :
      History format first (log ++ [⟨mutation, (mutation.run format now).1⟩])
        (mutation.run format now).2
  | meanwhile {log : List (Event α β)} {table : Table α} {storage later : Storage}
      (h : History format first log (table, storage))
      (hfile : later.read (fileName table.name) = storage.read (fileName table.name)) :
      History format first log (table, later)

/-- The rows after some changes, all of them made one after another. -/
def replay (rows : Uuid → Option α) (log : List (Event α β)) : Uuid → Option α :=
  log.foldl (fun rows event => event.mutation.apply rows) rows

/-- The changes up to the last one that was saved. -/
def savedPart (log : List (Event α β)) : List (Event α β) := log.rdropWhile fun e => !e.isSaved

/-- The changes since then. -/
def unsavedPart (log : List (Event α β)) : List (Event α β) := log.rtakeWhile fun e => !e.isSaved

theorem answering_save (format : RowFormat α) (f : β → γ) (result : β)
    (before : Table α × Storage) :
    answering f (Table.save format result) before = Table.save format (f result) before := by
  obtain ⟨table, storage⟩ := before
  simp only [answering, Table.save]
  split
  · split <;> rfl
  · rfl

/-- A change finds its row missing and does nothing, or it changes the rows and saves them. -/
theorem run_cases (format : RowFormat α) (mutation : Mutation α β) (table : Table α)
    (storage : Storage) :
    (mutation.answer? table.rows.get? = none ∧
      mutation.run format (table, storage) = (.error .notFound, table, storage)) ∨
    ∃ (answer : Mutation.Answer α β) (rows : Dict Uuid α),
      mutation.answer? table.rows.get? = some answer ∧
      rows.get? = mutation.apply table.rows.get? ∧
      mutation.run format (table, storage) =
        Table.save format answer ({ table with rows }, storage) := by
  cases mutation with
  | insert id row =>
    refine Or.inr ⟨.inserted, table.rows.insert id row, rfl, ?_, ?_⟩
    · funext key
      rw [Dict.get?_insert, Mutation.apply, Function.update_apply]
      simp only [eq_comm]
    · exact answering_save format (fun _ => Mutation.Answer.inserted) () _
  | update id change =>
    cases hrow : table.rows.get? id with
    | none =>
      refine Or.inl ⟨by rw [Mutation.answer?, hrow]; rfl, ?_⟩
      rw [Mutation.run, answering, update_of_none format change storage hrow]
      rfl
    | some row =>
      refine Or.inr ⟨.updated (change row).1, table.rows.insert id (change row).2,
        by rw [Mutation.answer?, hrow]; rfl, ?_, ?_⟩
      · funext key
        rw [Dict.get?_insert, Mutation.apply, Function.update_apply, hrow]
        simp only [eq_comm, Option.map_some]
      · rw [Mutation.run, answering, update_of_some format change storage hrow]
        exact answering_save format Mutation.Answer.updated _ _
  | delete id =>
    cases hrow : table.rows.get? id with
    | none =>
      refine Or.inl ⟨by rw [Mutation.answer?, hrow]; rfl, ?_⟩
      rw [Mutation.run, answering, delete_of_none format storage hrow]
      rfl
    | some row =>
      refine Or.inr ⟨.deleted row, table.rows.erase id,
        by rw [Mutation.answer?, hrow]; rfl, ?_, ?_⟩
      · funext key
        rw [Dict.get?_erase, Mutation.apply, Function.update_apply]
        simp only [eq_comm]
      · rw [Mutation.run, answering, delete_of_some format storage hrow]
        exact answering_save format Mutation.Answer.deleted _ _

/-- What a change may return when the rows are these. -/
def Event.Follows (event : Event α β) (rows : Uuid → Option α) : Prop :=
  match event.mutation.answer? rows with
  | none => event.answer = .error .notFound
  | some answer => event.answer = .ok answer ∨ ∃ cause, event.answer = .error (.io cause)

/-- How rows and file stand after a history of changes: the rows took all of the changes, and the
file is as of the last one that was saved. -/
structure Mirrors (format : RowFormat α) (first : Table α × Storage) (log : List (Event α β))
    (now : Table α × Storage) : Prop where
  named : now.1.name = first.1.name
  isPersistent : now.1.isPersistent = true
  rows : now.1.rows.get? = replay first.1.rows.get? log
  answers : ∀ before event later, log = before ++ event :: later →
    event.Follows (replay first.1.rows.get? before)
  untouched : savedPart log = [] →
    now.2.read (fileName first.1.name) = first.2.read (fileName first.1.name)
  file : savedPart log ≠ [] → ∃ rows : Dict Uuid α,
    rows.get? = replay first.1.rows.get? (savedPart log) ∧
    now.2.read (fileName first.1.name) = .ok (some (fileText format rows)) ∧
    ((∀ event ∈ unsavedPart log, event.answer = .error .notFound) → rows = now.1.rows)

section Mirrors

variable {format : RowFormat α} {first now : Table α × Storage} {log : List (Event α β)}

theorem replay_append (rows : Uuid → Option α) (log : List (Event α β)) (event : Event α β) :
    replay rows (log ++ [event]) = event.mutation.apply (replay rows log) :=
  List.foldl_append

theorem follows_concat {rows : Uuid → Option α} {event : Event α β}
    (h : ∀ before event later, log = before ++ event :: later →
      Event.Follows event (replay rows before))
    (hevent : event.Follows (replay rows log)) :
    ∀ before e later, log ++ [event] = before ++ e :: later →
      Event.Follows e (replay rows before) := by
  intro before e later hsplit
  rcases List.eq_nil_or_concat later with rfl | ⟨later, last, rfl⟩
  · obtain ⟨rfl, he⟩ := List.append_inj' hsplit rfl
    obtain rfl := List.singleton_inj.mp he
    exact hevent
  · rw [List.concat_eq_append, ← List.cons_append, ← List.append_assoc] at hsplit
    exact h before e later (List.append_inj' hsplit rfl).1

/-- A change keeps rows and file as they should stand. -/
theorem Mirrors.mutate (h : Mirrors format first log now) (mutation : Mutation α β) :
    Mirrors format first (log ++ [⟨mutation, (mutation.run format now).1⟩])
      (mutation.run format now).2 := by
  obtain ⟨table, storage⟩ := now
  rcases run_cases format mutation table storage with
    ⟨hmissing, hrun⟩ | ⟨answer, rows, hanswer, happly, hrun⟩
  · -- nothing happens
    rw [hrun]
    have hpart : savedPart (log ++ [⟨mutation, .error .notFound⟩]) = savedPart log :=
      List.rdropWhile_concat_pos _ _ _ rfl
    refine ⟨h.named, h.isPersistent, ?_, follows_concat h.answers ?_, ?_, ?_⟩
    · rw [replay_append, ← h.rows, Mutation.apply_of_missing hmissing]
    · rw [Event.Follows, ← h.rows, hmissing]
    · rw [hpart]
      exact h.untouched
    · rw [hpart]
      intro hsaved
      obtain ⟨rows, hrows, hread, hlatest⟩ := h.file hsaved
      refine ⟨rows, hrows, hread, fun hunsaved => hlatest fun event hevent => hunsaved event ?_⟩
      rw [unsavedPart, List.rtakeWhile_concat_pos _ _ _ rfl]
      exact List.mem_append_left _ hevent
  have hreplay : rows.get? = replay first.1.rows.get? (log ++ [⟨mutation, .ok answer⟩]) := by
    rw [replay_append, ← h.rows, happly]
  rcases save_cases format answer { table with rows } storage with
    ⟨after, hsave, hread⟩ | ⟨cause, hsave⟩
  · -- the file catches up
    rw [hrun, hsave]
    have hpart : savedPart (log ++ [⟨mutation, .ok answer⟩]) = log ++ [⟨mutation, .ok answer⟩] :=
      List.rdropWhile_concat_neg _ _ _ Bool.false_ne_true
    refine ⟨h.named, h.isPersistent, hreplay, follows_concat h.answers ?_, ?_, ?_⟩
    · rw [Event.Follows, ← h.rows, hanswer]
      exact Or.inl rfl
    · rw [hpart]
      exact fun hnil => absurd hnil (by simp)
    · rw [hpart]
      exact fun _ => ⟨rows, hreplay, h.named ▸ hread h.isPersistent, fun _ => rfl⟩
  · -- the rows go ahead of the file
    rw [hrun, hsave]
    have hpart : savedPart (log ++ [⟨mutation, .error (.io cause)⟩]) = savedPart log :=
      List.rdropWhile_concat_pos _ _ _ rfl
    refine ⟨h.named, h.isPersistent, ?_, follows_concat h.answers ?_, ?_, ?_⟩
    · rw [replay_append, ← h.rows, happly]
    · rw [Event.Follows, ← h.rows, hanswer]
      exact Or.inr ⟨cause, rfl⟩
    · rw [hpart]
      exact h.untouched
    · rw [hpart]
      intro hsaved
      obtain ⟨rows, hrows, hread, -⟩ := h.file hsaved
      refine ⟨rows, hrows, hread, fun hunsaved => ?_⟩
      have hlast := hunsaved ⟨mutation, .error (.io cause)⟩ (by
        rw [unsavedPart, List.rtakeWhile_concat_pos _ _ _ rfl]
        exact List.mem_append_right _ (List.mem_singleton_self _))
      cases hlast

theorem History.mirrors (h : History format first log now) (hp : first.1.isPersistent = true) :
    Mirrors format first log now := by
  induction h with
  | start =>
    refine ⟨rfl, hp, rfl, fun before event later hsplit => ?_, fun _ => rfl,
      fun hsaved => absurd rfl hsaved⟩
    exact absurd hsplit (by simp)
  | mutate mutation _ ih => exact ih.mutate mutation
  | meanwhile _ hfile ih =>
    have hname : fileName _ = fileName first.1.name := congrArg fileName ih.named
    rw [hname] at hfile
    refine ⟨ih.named, ih.isPersistent, ih.rows, ih.answers, fun hsaved => ?_, fun hsaved => ?_⟩
    · exact hfile.trans (ih.untouched hsaved)
    · obtain ⟨rows, hrows, hread, hlatest⟩ := ih.file hsaved
      exact ⟨rows, hrows, hfile.trans hread, hlatest⟩

/-- A table is opened with the rows that its file was written with. -/
theorem load_of_read {name : String} {storage : Storage} {rows : Dict Uuid α}
    (hread : storage.read (fileName name) = .ok (some (fileText format rows)))
    (h : ∀ entry ∈ rows.entries, Rereads format entry.2) :
    Table.load format name true storage = .ok ⟨name, true, rows⟩ := by
  rw [Table.load, if_pos rfl, hread]
  show (readRows format (fileText format rows)).map (fun rows => (⟨name, true, rows⟩ : Table α)) = _
  rw [readRows_fileText h]
  rfl

/-- After any history of a table that is kept in a file, the rows are what all changes together
made of them, and the file is as of the last change that was saved. If no change has failed to be
saved since, the table is opened again as it is. -/
theorem file_follows_rows (hp : first.1.isPersistent = true) (h : History format first log now) :
    Mirrors format first log now ∧
      (savedPart log ≠ [] → (∀ event ∈ unsavedPart log, event.answer = .error .notFound) →
        (∀ entry ∈ now.1.rows.entries, Rereads format entry.2) →
          Table.load format first.1.name true now.2 = .ok now.1) := by
  have hmirrors := h.mirrors hp
  refine ⟨hmirrors, fun hsaved hunsaved hrows => ?_⟩
  obtain ⟨rows, -, hread, hlatest⟩ := hmirrors.file hsaved
  obtain rfl := hlatest hunsaved
  rw [load_of_read hread hrows, ← hmirrors.named, ← hmirrors.isPersistent]

end Mirrors

namespace Shelf

/-- Which of some places on a shelf are taken. -/
def format : RowFormat Bool := ⟨.bool, Decoder.bool⟩

def places (entries : List (Uuid × Bool)) : Table Bool := ⟨"shelf", true, Dict.ofList entries⟩

/-- A folder with the file of the shelf and nothing else. -/
def folder (entries : List (Uuid × Bool)) (isWritable : Bool) : Storage :=
  ⟨Dict.ofList [(fileName "shelf", fileText format (Dict.ofList entries))], isWritable⟩

/-- One place is saved as taken, and freed while nothing can be written. Then a place is asked for
that there is not, and another one is saved as taken. -/
def log : List (Event Bool Bool) :=
  [⟨.insert ⟨1⟩ true, .ok .inserted⟩,
    ⟨.update ⟨1⟩ fun taken => (taken, !taken), .error (.io .missing)⟩,
    ⟨.delete ⟨2⟩, .error .notFound⟩, ⟨.insert ⟨3⟩ true, .ok .inserted⟩]

theorem history_log : History format (places [], Storage.empty) log
    (places [(⟨1⟩, false), (⟨3⟩, true)], folder [(⟨1⟩, false), (⟨3⟩, true)] true) := by
  have hfirst : History format (places [], Storage.empty) (log.take 1)
      (places [(⟨1⟩, true)], folder [(⟨1⟩, true)] true) :=
    History.start.mutate (.insert ⟨1⟩ true)
  have hlocked : History format (places [], Storage.empty) (log.take 1)
      (places [(⟨1⟩, true)], folder [(⟨1⟩, true)] false) := hfirst.meanwhile rfl
  have hahead : History format (places [], Storage.empty) (log.take 3)
      (places [(⟨1⟩, false)], folder [(⟨1⟩, true)] false) :=
    (hlocked.mutate (.update ⟨1⟩ fun taken => (taken, !taken))).mutate (.delete ⟨2⟩)
  have hopen : History format (places [], Storage.empty) (log.take 3)
      (places [(⟨1⟩, false)], folder [(⟨1⟩, true)] true) := hahead.meanwhile rfl
  exact hopen.mutate (.insert ⟨3⟩ true)

theorem rereads (taken : Bool) : Rereads format taken := ⟨trivial, rfl⟩

/-- The save at the end brings the file up to what the rows were all along. -/
theorem file_follows_rows_shelf :
    (places []).isPersistent = true ∧
    Table.load format "shelf" true (folder [(⟨1⟩, false), (⟨3⟩, true)] true) =
      .ok (places [(⟨1⟩, false), (⟨3⟩, true)]) ∧
    (places [(⟨1⟩, false), (⟨3⟩, true)]).rows.get? = replay (places []).rows.get? log := by
  have hfollows := file_follows_rows rfl history_log
  refine ⟨rfl, hfollows.2 ?_ ?_ fun entry _ => rereads entry.2, hfollows.1.rows⟩
  · exact List.cons_ne_nil _ _
  · exact fun event hevent => nomatch hevent

end Shelf

end Table
end Automation
