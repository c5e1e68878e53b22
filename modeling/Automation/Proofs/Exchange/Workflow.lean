import Automation.Exchange.Workflow
import Automation.Proofs.Json.Record

/-!
# Workflows as text

The JSON form of a workflow is read as the workflow. Of its numbers and times it is assumed that
their texts come back, and of free-form values that they are as a reader keeps them: their members
sorted, and no key twice.
-/
namespace Automation

/-- The text of an instant is read as the instant. -/
def Instant.ReadsBack (t : Instant) : Prop := ofText? t.text = some t

instance (t : Instant) : Decidable t.ReadsBack :=
  inferInstanceAs (Decidable (Instant.ofText? t.text = some t))

/-- The numbers of a free-form value come back, and its members stand in the order in which a
reader keeps them. -/
def Json.ReadsBack (v : Json) : Prop := v.Legible ∧ v.sorted = v

def Node.ReadsBack (node : Node) : Prop :=
  node.position.x.ReadsBack ∧ node.position.y.ReadsBack ∧ node.config.ReadsBack

/-- What a workflow holds of numbers, times and free-form values comes back from its text. -/
structure Workflow.ReadsBack (w : Workflow) : Prop where
  nodes : ∀ node ∈ w.nodes, node.ReadsBack
  vars : ∀ entry ∈ w.vars.entries, entry.2.ReadsBack
  createdAt : w.createdAt.ReadsBack
  lastRun : ∀ t ∈ w.lastRun, t.ReadsBack

theorem Double.ReadsBack.isFinite {d : Double} (h : d.ReadsBack) : d.isFinite = true := by
  by_contra hinfinite
  obtain ⟨l, hl, -⟩ := h
  rw [Json.doubleText, if_neg hinfinite] at hl
  obtain ⟨c, more, he, hc⟩ := Json.head_of_read? hl
  rw [← (List.cons.inj he).1] at hc
  exact absurd hc (by decide)

theorem Json.ofDouble_of_readsBack {d : Double} (h : d.ReadsBack) : Json.ofDouble d = .real d :=
  if_pos h.isFinite

section Legible

variable {α : Type}

theorem Json.legible_array {encode : α → Json} {as : List α} (h : ∀ a ∈ as, (encode a).Legible) :
    (Json.array (as.map encode)).Legible :=
  Json.legibleItems_of_forall (List.forall_mem_map.mpr h)

theorem Json.legible_record {members : List (String × Option Json)}
    (h : ∀ m ∈ members, ∀ v ∈ m.2, v.Legible) : (Json.record members).Legible := by
  refine Json.legibleMembers_of_forall fun m hm => ?_
  obtain ⟨field, hfield, he⟩ := List.mem_filterMap.mp hm
  obtain ⟨v, hv, rfl⟩ := Option.map_eq_some_iff.mp he
  exact h field hfield v hv

theorem Json.legible_ofNat {n : Nat} (h : n < 2 ^ 64) : (Json.ofNat n).Legible :=
  ⟨by omega, by exact_mod_cast h⟩

theorem Json.legible_ofOption {encode : α → Json} {o : Option α}
    (h : ∀ a ∈ o, (encode a).Legible) : (Json.ofOption encode o).Legible := by
  cases o with
  | none => trivial
  | some a => exact h a rfl

theorem Json.legible_ofDouble {d : Double} (h : d.ReadsBack) : (Json.ofDouble d).Legible := by
  rw [Json.ofDouble_of_readsBack h]
  exact h

theorem Trigger.legible_toJson (t : Trigger) : t.toJson.Legible := by
  cases t with
  | event name condition =>
    cases condition with
    | none => exact ⟨trivial, trivial, trivial⟩
    | some c => exact ⟨trivial, trivial, ⟨trivial, trivial, trivial, trivial⟩, trivial⟩
  | schedule expression => exact ⟨trivial, trivial, trivial⟩
  | manual => exact ⟨trivial, trivial⟩

theorem Node.legible_toJson {node : Node} (h : node.ReadsBack) : node.toJson.Legible := by
  obtain ⟨hx, hy, hconfig⟩ := h
  have hposition : node.position.toJson.Legible :=
    ⟨Json.legible_ofDouble hx, Json.legible_ofDouble hy, trivial⟩
  exact ⟨trivial, trivial, trivial, hposition, hconfig.1, trivial, trivial⟩

theorem Connection.legible_toJson (c : Connection) : c.toJson.Legible := by
  refine Json.legible_record ?_
  simp [Json.Legible]

theorem Workflow.legible_toJson {w : Workflow} (h : w.ReadsBack) : w.toJson.Legible := by
  refine Json.legible_record ?_
  have hnodes : (Json.array (w.nodes.map Node.toJson)).Legible :=
    Json.legible_array fun node hnode => Node.legible_toJson (h.nodes node hnode)
  have hconnections : (Json.array (w.connections.map Connection.toJson)).Legible :=
    Json.legible_array fun c _ => c.legible_toJson
  have hvars : (Json.ofDict w.vars).Legible :=
    Json.legibleMembers_of_forall fun entry hentry => (h.vars entry hentry).1
  have hrun : (Json.ofOption Json.ofInstant w.lastRun).Legible :=
    Json.legible_ofOption fun _ _ => trivial
  have hcount : (Json.ofCount w.runCount).Legible := Json.legible_ofNat w.runCount.toNat_lt
  simp only [List.forall_mem_cons, Option.mem_def, Option.some.injEq, forall_eq']
  exact ⟨trivial, trivial, by simp [Json.Legible], trivial, w.trigger.legible_toJson, hnodes,
    hconnections, hvars, trivial, hrun, hcount, fun _ hm => nomatch hm⟩

end Legible

namespace Decoder

theorem instant_string (text : String) :
    instant (.string text) = expect (Instant.ofText? text) := rfl

theorem instant_ofInstant {t : Instant} (h : t.ReadsBack) :
    instant (Json.ofInstant t).toDocument = .ok t := by
  rw [Json.ofInstant, Json.toDocument, instant_string, show Instant.ofText? t.text = some t from h,
    expect]

theorem count_ofCount (n : UInt64) : count (Json.ofCount n).toDocument = .ok n := by
  have hbound : n.toNat < 2 ^ 64 := n.toNat_lt
  rw [Json.ofCount, Json.ofNat, Json.toDocument, count, natural_ofNat hbound]
  show Except.ok (UInt64.ofNat n.toNat) = _
  rw [UInt64.ofNat_toNat]

theorem json_of_readsBack {v : Json} (h : v.ReadsBack) : json v.toDocument = .ok v := by
  rw [json_toDocument, h.2]

theorem dict_ofDict {d : Dict String Json} (h : ∀ entry ∈ d.entries, entry.2.ReadsBack) :
    dict json (Json.ofDict d).toDocument = .ok d := by
  have hread : dictOf some json
      (Json.object (d.entries.map fun entry => (id entry.1, id entry.2))).toDocument = .ok d :=
    dictOf_entries (fun _ => rfl) fun entry hentry => json_of_readsBack (h entry hentry)
  have hentries : (d.entries.map fun entry => (id entry.1, id entry.2)) = d.entries :=
    List.map_id d.entries
  rwa [hentries] at hread

end Decoder

theorem Condition.decode_toJson (c : Condition) : decode c.toJson.toDocument = .ok c := by
  obtain ⟨left, operator, right⟩ := c
  have hoperator : Decoder.choice comparisonNames (.string operator.text) = .ok operator := by
    cases operator <;> decide
  show Fields.decoder _ (Json.record [("left", some (.string left)),
    ("operator", some (.string operator.text)), ("right", some (.string right))]).toDocument = _
  refine Fields.decoder_record (by decide) rfl fun found => ?_
  refine .seq (.seq (.map _ ?_) ?_) ?_
  · exact Fields.reads_required (found 0 _ _ rfl) rfl
  · exact Fields.reads_required (found 1 _ _ rfl) hoperator
  · exact Fields.reads_required (found 2 _ _ rfl) rfl

namespace Trigger

theorem usable_toDocument (v : Json) : usable v.toDocument = .ok () := by
  rw [usable, Decoder.json_toDocument]
  rfl

/-- The members after the kind all have values, so they are kept. -/
theorem splitKind_present (kind : Option Kind) {members : List (String × Option Json)}
    (h : "kind" ∉ members.map Prod.fst) (content : List (String × Document)) :
    splitKind kind content (Fields.present members) =
      .ok (kind, content.reverse ++ Fields.present members) := by
  induction members generalizing content with
  | nil =>
    rw [Fields.present, List.filterMap_nil, List.append_nil]
    rfl
  | cons m members ih =>
    obtain ⟨name, value⟩ := m
    obtain ⟨hname, hrest⟩ := List.ne_and_not_mem_of_not_mem_cons h
    cases value with
    | none => exact ih hrest content
    | some value =>
      show splitKind kind content ((name, value.toDocument) :: Fields.present members) =
        .ok (kind, content.reverse ++ (name, value.toDocument) :: Fields.present members)
      rw [splitKind, usable_toDocument]
      · show splitKind kind _ (Fields.present members) = _
        rw [ih hrest, List.reverse_cons, List.append_assoc]
        rfl
      · exact fun _ he => hname (congrArg Prod.fst he).symm

/-- A trigger whose kind comes first is read as what its kind makes of the other members. -/
theorem decode_kindFirst {name : String} {kind : Kind} (hkind : kindOf (.string name) = .ok kind)
    {members : List (String × Option Json)} (h : "kind" ∉ members.map Prod.fst) :
    decode (Json.record (("kind", some (.string name)) :: members)).toDocument =
      decodeContent kind (Json.record members).toDocument := by
  have hsplit : splitKind none [] (Fields.present (("kind", some (.string name)) :: members)) =
      .ok (some kind, Fields.present members) := by
    show splitKind none [] (("kind", .string name) :: Fields.present members) = _
    rw [splitKind, hkind]
    exact splitKind_present (some kind) h []
  rw [Fields.toDocument_record, Fields.toDocument_record]
  rw [decode, hsplit]
  rfl

theorem decode_toJson (t : Trigger) : decode t.toJson.toDocument = .ok t := by
  cases t with
  | event name condition =>
    have hkind : kindOf (.string "event") = .ok .event := rfl
    refine (decode_kindFirst hkind (by simp)).trans ?_
    refine Fields.decoder_record (by decide) rfl fun found => ?_
    refine .seq (.map _ ?_) ?_
    · exact Fields.reads_required (found 0 _ _ rfl) rfl
    · exact Fields.reads_optionalLast Condition.toJson condition (.inl (found 1 _ _ rfl))
        fun c _ => ⟨Document.noConfusion, c.decode_toJson⟩
  | schedule expression =>
    have hkind : kindOf (.string "schedule") = .ok .schedule := rfl
    show decode (Json.record [("kind", some (.string "schedule")),
      ("scheduleExpr", some (.string expression))]).toDocument = _
    refine (decode_kindFirst hkind (by simp)).trans ?_
    refine Fields.decoder_record (by decide) rfl fun found => .map _ ?_
    exact Fields.reads_required (found 0 _ _ rfl) rfl
  | manual =>
    have hkind : kindOf (.string "manual") = .ok .manual := rfl
    show decode (Json.record [("kind", some (.string "manual"))]).toDocument = _
    exact decode_kindFirst hkind (by simp)

end Trigger

theorem Point.decode_toJson {p : Point} (hx : p.x.ReadsBack) (hy : p.y.ReadsBack) :
    decode p.toJson.toDocument = .ok p := by
  obtain ⟨x, y⟩ := p
  rw [toJson, Json.ofDouble_of_readsBack hx, Json.ofDouble_of_readsBack hy]
  show Fields.decoder _ (Json.record [("x", some (.real x)), ("y", some (.real y))]).toDocument = _
  refine Fields.decoder_record (by decide) rfl fun found => ?_
  refine .seq (.map _ ?_) ?_
  · exact Fields.reads_required (found 0 _ _ rfl) rfl
  · exact Fields.reads_required (found 1 _ _ rfl) rfl

theorem Node.decode_toJson {node : Node} (h : node.ReadsBack) :
    decode node.toJson.toDocument = .ok node := by
  obtain ⟨id, templateId, name, position, config, enabled⟩ := node
  obtain ⟨hx, hy, hconfig⟩ := h
  show Fields.decoder _ (Json.record [("id", some (.string id)),
    ("templateId", some (.string templateId)), ("name", some (.string name)),
    ("position", some position.toJson), ("config", some config),
    ("enabled", some (.bool enabled))]).toDocument = _
  refine Fields.decoder_record (by decide) rfl fun found => ?_
  refine .seq (.seq (.seq (.seq (.seq (.map _ ?_) ?_) ?_) ?_) ?_) ?_
  · exact Fields.reads_required (found 0 _ _ rfl) rfl
  · exact Fields.reads_required (found 1 _ _ rfl) rfl
  · exact Fields.reads_required (found 2 _ _ rfl) rfl
  · exact Fields.reads_withDefault _ (found 3 _ _ rfl) (Point.decode_toJson hx hy)
  · exact Fields.reads_withDefault _ (found 4 _ _ rfl) (Decoder.json_of_readsBack hconfig)
  · exact Fields.reads_withDefault _ (found 5 _ _ rfl) rfl

/-- A text that may be left out. -/
theorem Fields.reads_optionalText {found : String → Option Document} {name : String}
    (o : Option String) (hfound : found name = (o.map Json.string).map Json.toDocument) :
    (optionalLast name Decoder.string).Reads found o :=
  Fields.reads_optionalLast Json.string o (.inl hfound) fun _ _ => ⟨Document.noConfusion, rfl⟩

theorem Connection.decode_toJson (c : Connection) : decode c.toJson.toDocument = .ok c := by
  obtain ⟨id, source, target, sourceHandle, targetHandle⟩ := c
  refine Fields.decoder_record (by decide) rfl fun found => ?_
  refine .seq (.seq (.seq (.seq (.map _ ?_) ?_) ?_) ?_) ?_
  · exact Fields.reads_required (found 0 _ _ rfl) rfl
  · exact Fields.reads_required (found 1 _ _ rfl) rfl
  · exact Fields.reads_required (found 2 _ _ rfl) rfl
  · exact Fields.reads_optionalText _ (found 3 _ _ rfl)
  · exact Fields.reads_optionalText _ (found 4 _ _ rfl)

/-- The JSON form of a workflow is read as the workflow. -/
theorem Workflow.decode_toJson {w : Workflow} (h : w.ReadsBack) :
    decode w.toJson.toDocument = .ok w := by
  obtain ⟨id, name, description, enabled, trigger, nodes, connections, vars, createdAt, lastRun,
    runCount⟩ := w
  obtain ⟨hnodes, hvars, hcreated, hrun⟩ := h
  refine Fields.decoder_record (by decide) rfl fun found => ?_
  refine .seq (.seq (.seq (.seq (.seq (.seq (.seq (.seq (.seq (.seq (.map _ ?_) ?_) ?_) ?_) ?_)
    ?_) ?_) ?_) ?_) ?_) ?_
  · exact Fields.reads_required (found 0 _ _ rfl) (Decoder.uuid_ofUuid id)
  · exact Fields.reads_required (found 1 _ _ rfl) rfl
  · exact Fields.reads_optionalText _ (found 2 _ _ rfl)
  · exact Fields.reads_required (found 3 _ _ rfl) rfl
  · exact Fields.reads_required (found 4 _ _ rfl) trigger.decode_toJson
  · exact Fields.reads_withDefault _ (found 5 _ _ rfl)
      (Decoder.list_array fun node hnode => Node.decode_toJson (hnodes node hnode))
  · exact Fields.reads_withDefault _ (found 6 _ _ rfl)
      (Decoder.list_array fun c _ => c.decode_toJson)
  · exact Fields.reads_withDefault _ (found 7 _ _ rfl) (Decoder.dict_ofDict hvars)
  · exact Fields.reads_required (found 8 _ _ rfl) (Decoder.instant_ofInstant hcreated)
  · exact Fields.reads_optionalLast Json.ofInstant _ (.inr (found 9 _ _ rfl)) fun t ht =>
      ⟨Document.noConfusion, Decoder.instant_ofInstant (hrun t ht)⟩
  · exact Fields.reads_withDefault _ (found 10 _ _ rfl) (Decoder.count_ofCount runCount)

/-- What is printed of a workflow is read as the workflow, if it is not nested too deep. -/
theorem Workflow.decode_pretty {w : Workflow} (h : w.ReadsBack)
    (hd : w.toJson.depth < Document.nestingLimit) :
    decode (Document.ofText w.toJson.pretty) = .ok w := by
  rw [Json.ofText_pretty_of_depth (legible_toJson h) hd, decode_toJson h]

section Depth

variable {level : Nat}

theorem Trigger.depth_toJson_le (t : Trigger) : t.toJson.depth ≤ 2 := by
  cases t with
  | event name condition =>
    cases condition with
    | none => exact Nat.le_of_ble_eq_true rfl
    | some c => exact Nat.le_of_ble_eq_true rfl
  | schedule expression => exact Nat.le_of_ble_eq_true rfl
  | manual => exact Nat.le_of_ble_eq_true rfl

theorem Connection.depth_toJson_le (c : Connection) : c.toJson.depth ≤ 1 := by
  refine Json.depth_record_le ?_
  simp [Json.depth]

theorem Json.depth_ofDouble (d : Double) : (Json.ofDouble d).depth = 0 := by
  rw [Json.ofDouble]
  split <;> rfl

theorem Node.depth_toJson_le {node : Node} {n : Nat} (hn : 1 ≤ n) (h : node.config.depth ≤ n) :
    node.toJson.depth ≤ n + 1 := by
  have hposition : node.position.toJson.depth = 1 := by
    simp only [Point.toJson, Json.depth, Json.depthMembers, Json.depth_ofDouble]
    rfl
  refine Nat.succ_le_succ (Json.depthMembers_le_iff.mpr ?_)
  simp only [List.forall_mem_cons, Json.depth, hposition]
  exact ⟨n.zero_le, n.zero_le, n.zero_le, hn, h, n.zero_le, fun _ hm => nomatch hm⟩

theorem Json.depth_optionalInstant (t : Option Instant) :
    (Json.ofOption Json.ofInstant t).depth = 0 := by
  cases t with
  | none => rfl
  | some t => rfl

/-- A workflow is nested three levels deeper than the configuration of a node and two levels deeper
than a variable, and never less than four levels. -/
theorem Workflow.depth_toJson_le {w : Workflow} {n : Nat} (hn : 1 ≤ n)
    (hnodes : ∀ node ∈ w.nodes, node.config.depth ≤ n)
    (hvars : ∀ entry ∈ w.vars.entries, entry.2.depth ≤ n + 1) : w.toJson.depth ≤ n + 3 := by
  have hlist : (Json.array (w.nodes.map Node.toJson)).depth ≤ n + 2 :=
    Json.depth_array_le fun node hnode => Node.depth_toJson_le hn (hnodes node hnode)
  have hconnections : (Json.array (w.connections.map Connection.toJson)).depth ≤ 2 :=
    Json.depth_array_le fun c _ => c.depth_toJson_le
  have hdict : (Json.ofDict w.vars).depth ≤ n + 2 :=
    Nat.succ_le_succ (Json.depthMembers_le_iff.mpr hvars)
  have htrigger := w.trigger.depth_toJson_le
  have hrun := Json.depth_optionalInstant w.lastRun
  refine Json.depth_record_le ?_
  simp only [List.forall_mem_cons, Option.mem_def, Option.some.injEq, forall_eq', hrun]
  exact ⟨Nat.zero_le _, Nat.zero_le _, by simp [Json.depth], Nat.zero_le _, by omega, hlist,
    by omega, hdict, Nat.zero_le _, Nat.zero_le _, Nat.zero_le _, fun _ hm => nomatch hm⟩

/-- The configuration of a node that was read is not nested too deep. -/
theorem Node.depth_config_of_decode {node read : Node} (hlevel : level + 1 < Document.nestingLimit)
    (h : decode (node.toJson.documentAt level) = .ok read) :
    node.config.depth + (level + 1) < Document.nestingLimit := by
  have hrecord : Fields.decoder _ ((Json.record [("id", some (.string node.id)),
      ("templateId", some (.string node.templateId)), ("name", some (.string node.name)),
      ("position", some node.position.toJson), ("config", some node.config),
      ("enabled", some (.bool node.enabled))]).documentAt level) = .ok read := h
  have hcheck := Fields.check_of_record hrecord hlevel (by decide)
    (List.mem_of_getElem? (i := 4) rfl) 4 rfl
  obtain ⟨config, hconfig⟩ := ok_of_map hcheck
  exact Decoder.depth_of_json hlevel hconfig

/-- A workflow that was read where it was printed is not nested too deep. -/
theorem Workflow.depth_of_decode {w read : Workflow} (hlevel : level + 4 < Document.nestingLimit)
    (h : decode (w.toJson.documentAt level) = .ok read) :
    w.toJson.depth + level < Document.nestingLimit := by
  have hnodes : ∀ node ∈ w.nodes, node.config.depth + (level + 3) < Document.nestingLimit := by
    have hcheck := Fields.check_of_record h (by omega) (by decide)
      (List.mem_of_getElem? (i := 5) rfl) 5 rfl
    obtain ⟨nodes, hlist⟩ := ok_of_map hcheck
    rw [Json.documentAt, if_pos (by omega), Json.documentsAt_eq_map] at hlist
    intro node hnode
    obtain ⟨_, hdecode⟩ := Decoder.items_of_list hlist _
      (List.mem_map_of_mem (List.mem_map_of_mem hnode))
    exact Node.depth_config_of_decode (by omega) hdecode
  have hvars : ∀ entry ∈ w.vars.entries,
      entry.2.depth + (level + 2) < Document.nestingLimit := by
    have hcheck := Fields.check_of_record h (by omega) (by decide)
      (List.mem_of_getElem? (i := 7) rfl) 7 rfl
    obtain ⟨vars, hdict⟩ := ok_of_map hcheck
    rw [Json.ofDict, Json.documentAt, if_pos (by omega), Json.membersAt_eq_map] at hdict
    intro entry hentry
    obtain ⟨_, hdecode⟩ := Decoder.members_of_dictOf hdict _ (List.mem_map_of_mem hentry)
    exact Decoder.depth_of_json (by omega) hdecode
  have hdepth := Workflow.depth_toJson_le (w := w) (n := Document.nestingLimit - level - 4)
    (by omega) (fun node hnode => by have := hnodes node hnode; omega)
    (fun entry hentry => by have := hvars entry hentry; omega)
  omega

end Depth

end Automation
