import Automation.Proofs.Exchange.Workflow

/-!
# Scripts as text

The JSON form of a script is read as the script. It is assumed that its times come back from their
texts and that the places of its diagnostics fit 64 bits.
-/
namespace Automation

/-- The place of a diagnostic fits the numbers that are read. -/
def Diagnostic.ReadsBack (d : Diagnostic) : Prop := d.line < 2 ^ 64 ∧ d.column < 2 ^ 64

/-- The times of a script and the places of its diagnostics come back from its text. -/
structure Script.ReadsBack (script : Script) : Prop where
  createdAt : script.createdAt.ReadsBack
  lastRun : ∀ t ∈ script.lastRun, t.ReadsBack
  diagnostics : ∀ d ∈ script.diagnostics, d.ReadsBack

theorem Diagnostic.decode_toJson {d : Diagnostic} (h : d.ReadsBack) :
    decode d.toJson.toDocument = .ok d := by
  obtain ⟨line, column, message, severity⟩ := d
  have hseverity : Decoder.choice severityNames (nameIn severityNames severity).toDocument =
      .ok severity := by
    cases severity <;> decide
  have hrecord : Diagnostic.toJson ⟨line, column, message, severity⟩ =
      Json.record [("line", some (.ofNat line)), ("column", some (.ofNat column)),
        ("message", some (.string message)),
        ("severity", some (nameIn severityNames severity))] := rfl
  rw [hrecord]
  refine Fields.decoder_record (by decide) rfl fun found => ?_
  refine .seq (.seq (.seq (.map _ ?_) ?_) ?_) ?_
  · exact Fields.reads_required (found 0 _ _ rfl) (Decoder.natural_ofNat h.1)
  · exact Fields.reads_required (found 1 _ _ rfl) (Decoder.natural_ofNat h.2)
  · exact Fields.reads_required (found 2 _ _ rfl) rfl
  · exact Fields.reads_required (found 3 _ _ rfl) hseverity

namespace Script

/-- The JSON form of a script as a record. -/
theorem toJson_eq_record (script : Script) : script.toJson = Json.record
    [("id", some (.ofUuid script.id)), ("name", some (.string script.name)),
      ("code", some (.string script.code)), ("enabled", some (.bool script.enabled)),
      ("createdAt", some (.ofInstant script.createdAt)),
      ("lastRun", some (.ofOption .ofInstant script.lastRun)),
      ("runCount", some (.ofCount script.runCount)),
      ("diagnostics", some (.array (script.diagnostics.map Diagnostic.toJson)))] := rfl

theorem decode_toJson {script : Script} (h : script.ReadsBack) :
    decode script.toJson.toDocument = .ok script := by
  rw [toJson_eq_record]
  obtain ⟨hcreated, hrun, hdiagnostics⟩ := h
  refine Fields.decoder_record (by decide) rfl fun found => ?_
  obtain ⟨id, name, code, enabled, createdAt, lastRun, runCount, diagnostics⟩ := script
  refine .seq (.seq (.seq (.seq (.seq (.seq (.seq (.map _ ?_) ?_) ?_) ?_) ?_) ?_) ?_) ?_
  · exact Fields.reads_required (found 0 _ _ rfl) (Decoder.uuid_ofUuid id)
  · exact Fields.reads_required (found 1 _ _ rfl) rfl
  · exact Fields.reads_required (found 2 _ _ rfl) rfl
  · exact Fields.reads_required (found 3 _ _ rfl) rfl
  · exact Fields.reads_required (found 4 _ _ rfl) (Decoder.instant_ofInstant hcreated)
  · exact Fields.reads_optionalLast Json.ofInstant _ (.inr (found 5 _ _ rfl)) fun t ht =>
      ⟨Document.noConfusion, Decoder.instant_ofInstant (hrun t ht)⟩
  · exact Fields.reads_withDefault _ (found 6 _ _ rfl) (Decoder.count_ofCount runCount)
  · exact Fields.reads_withDefault _ (found 7 _ _ rfl)
      (Decoder.list_array fun d hd => Diagnostic.decode_toJson (hdiagnostics d hd))

theorem legible_toJson {script : Script} (h : script.ReadsBack) : script.toJson.Legible := by
  have hrun : (Json.ofOption Json.ofInstant script.lastRun).Legible :=
    Json.legible_ofOption fun _ _ => trivial
  have hdiagnostics : (Json.array (script.diagnostics.map Diagnostic.toJson)).Legible :=
    Json.legible_array fun d hd => ⟨Json.legible_ofNat (h.diagnostics d hd).1,
      Json.legible_ofNat (h.diagnostics d hd).2, trivial, trivial, trivial⟩
  exact ⟨trivial, trivial, trivial, trivial, trivial, hrun,
    Json.legible_ofNat script.runCount.toNat_lt, hdiagnostics, trivial⟩

theorem depth_toJson_le (script : Script) : script.toJson.depth ≤ 3 := by
  have hrun := Json.depth_optionalInstant script.lastRun
  have hdiagnostics : (Json.array (script.diagnostics.map Diagnostic.toJson)).depth ≤ 2 :=
    Json.depth_array_le fun d _ => Nat.le_of_ble_eq_true rfl
  rw [toJson_eq_record]
  refine Json.depth_record_le ?_
  simp only [List.forall_mem_cons, Option.mem_def, Option.some.injEq, forall_eq', hrun]
  exact ⟨Nat.zero_le _, Nat.zero_le _, Nat.zero_le _, Nat.zero_le _, Nat.zero_le _,
    Nat.zero_le _, Nat.zero_le _, hdiagnostics, fun _ hm => nomatch hm⟩

end Script
end Automation
