import Automation.Json.Decoder
import Automation.Proofs.Dict
import Automation.Proofs.Json.Nesting

/-!
# Reading records

A record is read field by field: what its fields need under their names decides what is read of it,
in whatever order the members stand. A record that is written with every field, or with those left
out that are absent, is thus read by one fact for each field.
-/
namespace Automation

section Ok

variable {ε ζ α β : Type} {x : Except ε α}

theorem ok_of_bind {f : α → Except ε β} {b : β} (h : x >>= f = .ok b) :
    ∃ a, x = .ok a ∧ f a = .ok b := by
  cases x with
  | error e => cases h
  | ok a => exact ⟨a, rfl, h⟩

theorem ok_of_map {f : α → β} {b : β} (h : x.map f = .ok b) : ∃ a, x = .ok a := by
  cases x with
  | error e => cases h
  | ok a => exact ⟨a, rfl⟩

theorem ok_of_mapError {f : ε → ζ} {a : α} (h : x.mapError f = .ok a) : x = .ok a := by
  cases x with
  | error e => cases h
  | ok b => exact congrArg Except.ok (Except.ok.inj h)

end Ok

namespace Fields

variable {α β : Type}

/-- The fields make a value of the documents that are found, and none of these is refused. -/
def Reads (fields : Fields α) (found : String → Option Document) (a : α) : Prop :=
  fields.build found = .ok a ∧
    ∀ rule ∈ fields.rules, ∀ document, found rule.name = some document →
      rule.check document = .ok ()

section Reads

variable {found : String → Option Document} {name : String} {document : Document}

theorem reads_pure (a : α) : (pure a : Fields α).Reads found a :=
  ⟨rfl, fun _ h => nomatch h⟩

theorem Reads.seq {f : Fields (α → β)} {x : Fields α} {g : α → β} {a : α} (hf : f.Reads found g)
    (hx : x.Reads found a) : (f <*> x).Reads found (g a) := by
  refine ⟨?_, fun rule h => ?_⟩
  · show (do
      let g ← f.build found
      let a ← x.build found
      .ok (g a)) = _
    rw [hf.1, hx.1]
    rfl
  · rcases List.mem_append.mp h with h | h
    · exact hf.2 rule h
    · exact hx.2 rule h

theorem Reads.map {x : Fields α} {a : α} (g : α → β) (hx : x.Reads found a) :
    (g <$> x).Reads found (g a) :=
  (reads_pure g).seq hx

theorem reads_one {decode : Decoder α} {a : α} (hasDefault : Bool) (absent : Except Fault α)
    (hfound : found name = some document) (h : decode document = .ok a) :
    (one name hasDefault absent decode).Reads found a := by
  refine ⟨?_, fun rule hrule other hother => ?_⟩
  · simp only [one, hfound, h]
  · obtain rfl := List.mem_singleton.mp hrule
    obtain rfl : document = other := Option.some.inj (hfound.symm.trans hother)
    show (decode document).map _ = _
    rw [h]
    rfl

theorem reads_one_absent {decode : Decoder α} {a : α} (hasDefault : Bool)
    (hfound : found name = none) : (one name hasDefault (.ok a) decode).Reads found a := by
  refine ⟨?_, fun rule hrule other hother => ?_⟩
  · simp only [one, hfound]
  · obtain rfl := List.mem_singleton.mp hrule
    rw [hfound] at hother
    cases hother

theorem reads_required {decode : Decoder α} {a : α} (hfound : found name = some document)
    (h : decode document = .ok a) : (required name decode).Reads found a :=
  reads_one false _ hfound h

theorem reads_withDefault {decode : Decoder α} {a : α} (default : α)
    (hfound : found name = some document) (h : decode document = .ok a) :
    (withDefault name default decode).Reads found a :=
  reads_one true _ hfound h

end Reads

section Members

variable {rules : List FieldRule}

/-- Members of known fields with different names are all kept if none of them is refused. -/
theorem keepKnown_ok {members : List (String × Document)} :
    ∀ kept, ((kept ++ members).map Prod.fst).Nodup →
      (∀ m ∈ members, ∃ rule, (rules.find? fun rule => rule.name == m.1) = some rule ∧
        rule.check m.2 = .ok ()) →
      keepKnown rules kept members = .ok (members.reverse ++ kept) := by
  induction members with
  | nil => exact fun _ _ _ => rfl
  | cons m members ih =>
    intro kept hnodup hknown
    obtain ⟨name, document⟩ := m
    obtain ⟨rule, hrule, hcheck⟩ := hknown _ List.mem_cons_self
    have hfresh : (kept.any fun member => member.1 == name) = false := by
      rw [List.map_append, List.map_cons] at hnodup
      rw [List.any_eq_false]
      intro member hmember he
      rw [beq_iff_eq] at he
      have hdisjoint := List.disjoint_of_nodup_append hnodup
      exact hdisjoint (List.mem_map.mpr ⟨member, hmember, he⟩) List.mem_cons_self
    have hrest : ((((name, document) :: kept) ++ members).map Prod.fst).Nodup := by
      refine (List.Perm.nodup_iff ?_).mp hnodup
      exact (List.perm_middle).map Prod.fst
    simp only [keepKnown, hrule, hfresh, hcheck]
    rw [List.reverse_cons, List.append_assoc, List.singleton_append]
    exact ih _ hrest fun m hm => hknown m (List.mem_cons_of_mem _ hm)

/-- No known member that was read was refused. -/
theorem check_of_keepKnown {members : List (String × Document)} :
    ∀ {kept found : List (String × Document)}, keepKnown rules kept members = .ok found →
      ∀ m ∈ members, ∀ rule, (rules.find? fun rule => rule.name == m.1) = some rule →
        rule.check m.2 = .ok () := by
  induction members with
  | nil => exact fun _ _ hm => nomatch hm
  | cons first members ih =>
    intro kept found h m hm rule hrule
    obtain ⟨name, document⟩ := first
    rw [keepKnown] at h
    split at h
    · next hunknown =>
      rcases List.mem_cons.mp hm with rfl | hm
      · rw [hunknown] at hrule
        cases hrule
      · exact ih h m hm rule hrule
    · next known hknown =>
      split at h
      · cases h
      · obtain ⟨_, hcheck, hrest⟩ := ok_of_bind h
        rcases List.mem_cons.mp hm with rfl | hm
        · rw [hknown] at hrule
          rwa [← Option.some.inj hrule]
        · exact ih hrest m hm rule hrule

theorem find_eq_some_iff {members : List (String × Document)}
    (h : (members.map Prod.fst).Nodup) {name : String} {document : Document} :
    find members name = some document ↔ (name, document) ∈ members :=
  Dict.get?_eq_some_iff (d := ⟨members, h⟩)

theorem find_reverse {members : List (String × Document)} (h : (members.map Prod.fst).Nodup) :
    find members.reverse = find members := by
  have hreverse : (members.reverse.map Prod.fst).Nodup := by
    rw [List.map_reverse]
    exact List.nodup_reverse.mpr h
  funext name
  ext document
  rw [find_eq_some_iff h, find_eq_some_iff hreverse, List.mem_reverse]

theorem find?_rule {rule : FieldRule} (hnodup : (rules.map FieldRule.name).Nodup)
    (h : rule ∈ rules) : (rules.find? fun other => other.name == rule.name) = some rule := by
  cases hfind : rules.find? fun other => other.name == rule.name with
  | none => exact absurd (beq_self_eq_true _) (List.find?_eq_none.mp hfind rule h)
  | some other =>
    have hname : other.name = rule.name := by simpa using List.find?_some hfind
    rw [List.inj_on_of_nodup_map hnodup (List.mem_of_find?_eq_some hfind) h hname]

/-- A record with some of its fields and no other members is read as its fields read it. -/
theorem decoder_object {α : Type} {fields : Fields α} {members : List (String × Document)} {a : α}
    (hnodup : (fields.rules.map FieldRule.name).Nodup)
    (hsub : (members.map Prod.fst).Sublist (fields.rules.map FieldRule.name))
    (h : fields.Reads (find members) a) : fields.decoder (.object members true) = .ok a := by
  have hmembers : (members.map Prod.fst).Nodup := hsub.nodup hnodup
  have hkept : keepKnown fields.rules [] members = .ok members.reverse := by
    rw [← List.append_nil members.reverse]
    refine keepKnown_ok [] hmembers fun m hm => ?_
    obtain ⟨rule, hrule, hname⟩ := List.mem_map.mp (hsub.mem (List.mem_map_of_mem hm))
    refine ⟨rule, hname ▸ find?_rule hnodup hrule, h.2 rule hrule m.2 ?_⟩
    rw [find_eq_some_iff hmembers, hname]
    exact hm
  show (do
    let kept ← keepKnown fields.rules [] members
    let kept ← Decoder.closing true kept
    fields.build (find kept)) = _
  rw [hkept]
  show fields.build (find members.reverse) = _
  rw [find_reverse hmembers, h.1]

/-- A field of a record that was read was not refused. -/
theorem check_of_decoder {α : Type} {fields : Fields α} {members : List (String × Document)}
    {closed : Bool} {a : α} (h : fields.decoder (.object members closed) = .ok a)
    (hnodup : (fields.rules.map FieldRule.name).Nodup) {rule : FieldRule}
    (hrule : rule ∈ fields.rules) {document : Document}
    (hmem : (rule.name, document) ∈ members) : rule.check document = .ok () := by
  obtain ⟨kept, hkept, -⟩ := ok_of_bind h
  exact check_of_keepKnown hkept _ hmem rule (find?_rule hnodup hrule)

end Members

section Record

variable {members : List (String × Option Json)}

/-- The documents of the members that a record has. -/
def present (members : List (String × Option Json)) : List (String × Document) :=
  members.filterMap fun m => m.2.map fun value => (m.1, value.toDocument)

theorem toDocument_record (members : List (String × Option Json)) :
    (Json.record members).toDocument = .object (present members) true := by
  rw [Json.record, Json.toDocument, Json.membersToDocument_eq_map, present, List.map_filterMap]
  simp only [Option.map_map]
  rfl

theorem present_sublist (members : List (String × Option Json)) :
    ((present members).map Prod.fst).Sublist (members.map Prod.fst) := by
  induction members with
  | nil => exact .refl _
  | cons m members ih =>
    obtain ⟨name, value⟩ := m
    cases value with
    | none => exact ih.cons name
    | some value => exact ih.cons_cons name

/-- What is found under the name of a member. -/
theorem find_present (hnodup : (members.map Prod.fst).Nodup) (i : Nat) {name : String}
    {value : Option Json} (h : members[i]? = some (name, value)) :
    find (present members) name = value.map Json.toDocument := by
  have hmem := List.mem_of_getElem? h
  have hpresent := (present_sublist members).nodup hnodup
  ext document
  rw [find_eq_some_iff hpresent, present, List.mem_filterMap]
  constructor
  · rintro ⟨m, hm, he⟩
    obtain ⟨found, hfound, he⟩ := Option.map_eq_some_iff.mp he
    obtain ⟨rfl, rfl⟩ := Prod.mk.inj he
    have hvalue : m.2 = value :=
      congrArg Prod.snd (List.inj_on_of_nodup_map hnodup hm hmem rfl : m = (m.1, value))
    rw [← hvalue, hfound]
    rfl
  · intro he
    obtain ⟨found, rfl, rfl⟩ := Option.map_eq_some_iff.mp he
    exact ⟨_, hmem, rfl⟩

/-- A record that is written with the fields in their order is read as its fields read it. -/
theorem decoder_record {α : Type} {fields : Fields α} {a : α}
    (hnodup : (fields.rules.map FieldRule.name).Nodup)
    (hnames : members.map Prod.fst = fields.rules.map FieldRule.name)
    (h : (∀ (i : Nat) (name : String) (value : Option Json), members[i]? = some (name, value) →
        find (present members) name = value.map Json.toDocument) →
      fields.Reads (find (present members)) a) :
    fields.decoder (Json.record members).toDocument = .ok a := by
  rw [toDocument_record]
  refine decoder_object hnodup (hnames ▸ present_sublist members) (h fun i name value hi => ?_)
  exact find_present (hnames ▸ hnodup) i hi

/-- A field of a printed record that was read was not refused. -/
theorem check_of_record {α : Type} {fields : Fields α} {level : Nat} {a : α}
    (h : fields.decoder ((Json.record members).documentAt level) = .ok a)
    (hlevel : level + 1 < Document.nestingLimit)
    (hnodup : (fields.rules.map FieldRule.name).Nodup) {rule : FieldRule}
    (hrule : rule ∈ fields.rules) (i : Nat) {value : Json}
    (hmem : members[i]? = some (rule.name, some value)) :
    rule.check (value.documentAt (level + 1)) = .ok () := by
  rw [Json.record, Json.documentAt, if_pos hlevel] at h
  refine check_of_decoder h hnodup hrule ?_
  rw [Json.membersAt_eq_map]
  refine List.mem_map.mpr ⟨(rule.name, value), ?_, rfl⟩
  exact List.mem_filterMap.mpr ⟨_, List.mem_of_getElem? hmem, rfl⟩

end Record

/-- A field that is left out or null where there is nothing. -/
theorem reads_optionalLast {found : String → Option Document} {name : String} {decode : Decoder α}
    (encode : α → Json) (o : Option α)
    (hfound : found name = (o.map encode).map Json.toDocument ∨
      found name = some (Json.ofOption encode o).toDocument)
    (h : ∀ a ∈ o, (encode a).toDocument ≠ .null ∧ decode (encode a).toDocument = .ok a) :
    (optionalLast name decode).Reads found o := by
  cases o with
  | none =>
    rcases hfound with hfound | hfound
    · exact reads_one_absent true hfound
    · exact reads_one true _ hfound rfl
  | some a =>
    obtain ⟨hnull, hdecode⟩ := h a rfl
    have hsome : found name = some (encode a).toDocument := by
      rcases hfound with hfound | hfound
      · exact hfound
      · exact hfound
    refine reads_one true _ hsome ?_
    rw [Decoder.option, hdecode]
    · rfl
    · exact hnull

end Fields

namespace Decoder

variable {α : Type}

/-- Any value is usable. -/
theorem json_toDocument (v : Json) : json v.toDocument = .ok v.sorted := by
  simp only [json, Json.toJson?_toDocument]

/-- A free-form value that was read is not nested too deep. -/
theorem depth_of_json {v value : Json} {level : Nat} (hlevel : level < Document.nestingLimit)
    (h : json (v.documentAt level) = .ok value) : v.depth + level < Document.nestingLimit := by
  refine Json.depth_of_toJson? hlevel v ?_
  rw [json] at h
  split at h
  · next hvalue => rw [hvalue]; rfl
  · cases h

theorem uuid_string (text : String) : uuid (.string text) = expect (Uuid.ofText? text) := rfl

theorem uuid_ofUuid (id : Uuid) : uuid (.string id.text) = .ok id := by
  rw [uuid_string, Uuid.ofText?_text, expect]

theorem natural_ofNat {n : Nat} (h : n < 2 ^ 64) : natural (.int n) = .ok n := by
  have hrange : (0 ≤ (n : Int) && (n : Int).toNat < Nat.pow 2 64) = true := by
    rw [Bool.and_eq_true, decide_eq_true_iff, decide_eq_true_iff, Int.toNat_natCast]
    exact ⟨Int.natCast_nonneg n, h⟩
  rw [natural, if_pos hrange, Int.toNat_natCast]

theorem mapM_ok {encode : α → Json} {decode : Decoder α} {as : List α}
    (h : ∀ a ∈ as, decode (encode a).toDocument = .ok a) :
    (Json.itemsToDocument (as.map encode)).mapM decode = .ok as := by
  induction as with
  | nil => rfl
  | cons a as ih =>
    rw [List.map_cons, Json.itemsToDocument, List.mapM_cons, h a List.mem_cons_self,
      ih fun b hb => h b (List.mem_cons_of_mem _ hb)]
    rfl

theorem ok_of_mapM {β : Type} {f : β → Except Fault α} {bs : List β} {as : List α}
    (h : bs.mapM f = .ok as) : ∀ b ∈ bs, ∃ a, f b = .ok a := by
  induction bs generalizing as with
  | nil => exact fun _ hb => nomatch hb
  | cons b bs ih =>
    rw [List.mapM_cons] at h
    obtain ⟨a, hb, h⟩ := ok_of_bind h
    obtain ⟨rest, hbs, -⟩ := ok_of_bind h
    exact List.forall_mem_cons.mpr ⟨⟨a, hb⟩, ih hbs⟩

/-- Every item of a list that was read was read. -/
theorem items_of_list {decode : Decoder α} {items : List Document} {closed : Bool} {as : List α}
    (h : list decode (.array items closed) = .ok as) :
    ∀ item ∈ items, ∃ a, decode item = .ok a := by
  obtain ⟨_, hitems, -⟩ := ok_of_bind h
  exact ok_of_mapM hitems

theorem list_array {encode : α → Json} {decode : Decoder α} {as : List α}
    (h : ∀ a ∈ as, decode (encode a).toDocument = .ok a) :
    list decode (Json.array (as.map encode)).toDocument = .ok as := by
  show (do closing true (← (Json.itemsToDocument (as.map encode)).mapM decode)) = _
  rw [mapM_ok h]
  rfl

section Dict

variable {κ : Type} [DecidableEq κ] {key? : String → Option κ} {keyText : κ → String}
  {encode : α → Json} {decode : Decoder α}

omit [DecidableEq κ] in
theorem mapM_entries_ok (hkey : ∀ key, key? (keyText key) = some key) {document : α → Document}
    {entries : List (κ × α)} (h : ∀ entry ∈ entries, decode (document entry.2) = .ok entry.2) :
    (entries.map fun entry => (keyText entry.1, document entry.2)).mapM
      (fun (m : String × Document) => do
        let key ← expect (key? m.1)
        let value ← decode m.2
        .ok (key, value)) = .ok entries := by
  induction entries with
  | nil => rfl
  | cons entry entries ih =>
    rw [List.map_cons, List.mapM_cons, hkey entry.1, h entry List.mem_cons_self,
      ih fun other hother => h other (List.mem_cons_of_mem _ hother)]
    rfl

/-- Every member of a dictionary that was read was read. -/
theorem members_of_dictOf {members : List (String × Document)} {closed : Bool} {d : Dict κ α}
    (h : dictOf key? decode (.object members closed) = .ok d) :
    ∀ m ∈ members, ∃ a, decode m.2 = .ok a := by
  intro m hm
  obtain ⟨entries, hentries, -⟩ := ok_of_bind h
  obtain ⟨entry, hentry⟩ := ok_of_mapM hentries m hm
  obtain ⟨key, -, hvalue⟩ := ok_of_bind hentry
  obtain ⟨a, hvalue, -⟩ := ok_of_bind hvalue
  exact ⟨a, hvalue⟩

/-- A dictionary is read from its own entries, if its keys come back from their texts. -/
theorem dictOf_of_entries (hkey : ∀ key, key? (keyText key) = some key) {document : α → Document}
    {d : Dict κ α} (h : ∀ entry ∈ d.entries, decode (document entry.2) = .ok entry.2) :
    dictOf key? decode
        (.object (d.entries.map fun entry => (keyText entry.1, document entry.2)) true) =
      .ok d := by
  show (do
    let entries ← (d.entries.map fun (entry : κ × α) => (keyText entry.1, document entry.2)).mapM
      (fun (m : String × Document) => do
        let key ← expect (key? m.1)
        let value ← decode m.2
        .ok (key, value))
    closing true (Dict.ofList entries)) = _
  rw [mapM_entries_ok hkey h]
  show Except.ok (Dict.ofList d.entries) = _
  rw [Dict.ofList_entries]

theorem dictOf_entries (hkey : ∀ key, key? (keyText key) = some key) {d : Dict κ α}
    (h : ∀ entry ∈ d.entries, decode (encode entry.2).toDocument = .ok entry.2) :
    dictOf key? decode
        (Json.object (d.entries.map fun entry => (keyText entry.1, encode entry.2))).toDocument =
      .ok d := by
  rw [Json.toDocument, Json.membersToDocument_eq_map, List.map_map]
  exact @dictOf_of_entries _ _ _ key? keyText decode hkey (fun a => (encode a).toDocument) d h

end Dict

end Decoder
end Automation
