import LcmBridge.Core.Serde
import LcmBridge.Library.Records

/-!
# The Format of a Configuration

Which objects are configurations, and what they say.

An object is read entry by entry, into a record that remembers which fields it
has seen. What this comes to does not mention the entries' order: every name
must be that of a field, none may come twice, each value must be one of its
field, and a field without an entry has its default (`deserialize_object_iff`).
The reader of the fields is a reader of records in general (`configReader`), so
the argument is the general one; what is left to show is what each of the ten
fields does.

`__required__` and `__path__` are fields like the others here. The first has no
default in the record, but reading an object treats a missing optional field as
one that is `null`.

## Main definitions

* `slotIs`, `fieldIs`: What has been read of a field, and what a field holds.
* `ConfigFields.Slot`, `Config.FieldIs`: The same for the fields by name.
* `configReader`: The reader of configurations.

## Theorems

* `ofName_eq_some_iff`: The names of the fields.
* `readField_ok`, `readField_total`: What reading one field does.
* `fieldIs_build`: What the record makes of what was read.
* `deserialize_object_iff`: Which objects are read, and as what.
-/

namespace LcmBridge

/-- Nothing has been read of the field, or this value. -/
def slotIs {α : Type} (read : Json → Except DeError α) (slot : Option α) : Option Json → Prop
  | none => slot = none
  | some v => ∃ a, read v = .ok a ∧ slot = some a

/-- The field holds what the value is read as, or its default without one. -/
def fieldIs {α : Type} (read : Json → Except DeError α) (default a : α) : Option Json → Prop
  | none => a = default
  | some v => read v = .ok a

/-- What has been read of each field. -/
def ConfigFields.Slot (new : String → Except String Regex) (fields : ConfigFields) :
    ConfigField → Option Json → Prop
  | .lcmUrl => slotIs readString fields.lcmUrl
  | .keyPrefix => slotIs readString fields.keyPrefix
  | .allow => slotIs (deserializeRegex new) fields.allow
  | .deny => slotIs (deserializeRegex new) fields.deny
  | .networkInterface => slotIs (readOption readString) fields.networkInterface
  | .maxMessageSize => slotIs readUsize fields.maxMessageSize
  | .workThreadNum => slotIs readUsize fields.workThreadNum
  | .maxBlockThreadNum => slotIs readUsize fields.maxBlockThreadNum
  | .required => slotIs (readOption readBool) fields.required
  | .path => slotIs deserializePath fields.path

/-- What each field of a configuration holds. -/
def Config.FieldIs (new : String → Except String Regex) (c : Config) :
    ConfigField → Option Json → Prop
  | .lcmUrl => fieldIs readString defaultLcmUrl c.lcmUrl
  | .keyPrefix => fieldIs readString defaultKeyPrefix c.keyPrefix
  | .allow => fieldIs (deserializeRegex new) none c.allow
  | .deny => fieldIs (deserializeRegex new) none c.deny
  | .networkInterface => fieldIs (readOption readString) none c.networkInterface
  | .maxMessageSize => fieldIs readUsize defaultMaxMessageSize c.maxMessageSize
  | .workThreadNum => fieldIs readUsize defaultWorkThreadNum c.workThreadNum
  | .maxBlockThreadNum => fieldIs readUsize defaultMaxBlockThreadNum c.maxBlockThreadNum
  | .required => fieldIs (readOption readBool) none c.required
  | .path => fieldIs deserializePath none c.path

/-! ### Names -/

theorem ofName_eq_some_iff {s : String} {f : ConfigField} :
    ConfigField.ofName s = some f ↔ s = f.name := by
  constructor
  · intro h
    unfold ConfigField.ofName at h
    have hname := List.find?_some h
    exact (of_decide_eq_true hname).symm
  · intro h
    rw [h]
    exact ConfigField.ofName_name f

/-- The value under the name of a field. -/
theorem find?_name_eq_lookup (f : ConfigField) (entries : List (String × Json)) :
    (entries.find? (fun e => ConfigField.ofName e.1 = some f)).map Prod.snd
      = entries.lookup f.name := by
  induction entries with
  | nil => rfl
  | cons entry entries ih =>
      obtain ⟨name, v⟩ := entry
      rw [List.find?_cons, List.lookup_cons]
      by_cases hname : name = f.name
      · simp only [ofName_eq_some_iff, hname, decide_true, beq_self_eq_true, Option.map_some]
      · have hne : (f.name == name) = false := beq_false_of_ne (fun h => hname h.symm)
        simp only [ofName_eq_some_iff, hname, decide_false, hne]
        simpa only [ofName_eq_some_iff] using ih

/-- Names of fields are different when their fields are. -/
theorem nodup_names_iff {entries : List (String × Json)}
    (h : ∀ e ∈ entries, (ConfigField.ofName e.1).isSome) :
    (entries.map (fun e => ConfigField.ofName e.1)).Nodup ↔ (entries.map Prod.fst).Nodup := by
  have hmap : entries.map (fun e => ConfigField.ofName e.1)
      = (entries.map Prod.fst).map ConfigField.ofName := by
    rw [List.map_map]
    rfl
  rw [hmap]
  refine ⟨List.Nodup.of_map _, List.Nodup.map_on (fun s hs s' hs' heq => ?_)⟩
  rcases List.mem_map.mp hs with ⟨e, he, rfl⟩
  rcases Option.isSome_iff_exists.mp (h e he) with ⟨f, hf⟩
  rw [hf] at heq
  rw [ofName_eq_some_iff.mp hf, ofName_eq_some_iff.mp heq.symm]

/-! ### Fields -/

section Fields

variable {new : String → Except String Regex} {fields fields' : ConfigFields} {v : Json}
  {f : ConfigField}

theorem readOnce_eq_ok_iff {α : Type} {field : ConfigField} {old : Option α}
    {read : Except DeError α} {put : α → ConfigFields} :
    readOnce field old read put = .ok fields ↔
      old = none ∧ ∃ a, read = .ok a ∧ put a = fields := by
  unfold readOnce
  cases old with
  | some a => simp only [Option.isSome_some, if_true, reduceCtorEq, false_and]
  | none =>
      simp only [Option.isSome_none, Bool.false_eq_true, if_false, true_and]
      cases read with
      | error e => simp only [Except.map, reduceCtorEq, false_and, exists_false]
      | ok a => simp only [Except.map, Except.ok.injEq, exists_eq_left']

/-- The value is one of the field. -/
def ConfigField.Readable (new : String → Except String Regex) (f : ConfigField) (v : Json) : Prop :=
  ∃ fields, ConfigFields.Slot new fields f (some v)

-- One field after the other. In each case reading it sets its slot and no other.
theorem readField_ok (h : readField new fields v f = .ok fields') :
    fields.Slot new f none ∧ f.Readable new v ∧ fields'.Slot new f (some v) ∧
      ∀ g, g ≠ f → ∀ o, fields.Slot new g o → fields'.Slot new g o := by
  have hsplit : fields.Slot new f none ∧ fields'.Slot new f (some v) ∧
      ∀ g, g ≠ f → ∀ o, fields.Slot new g o → fields'.Slot new g o := by
    cases f <;>
      (rcases readOnce_eq_ok_iff.mp h with ⟨hold, a, hread, rfl⟩
       refine ⟨hold, ⟨a, hread, rfl⟩, fun g hg o ho => ?_⟩
       cases g <;> first | exact absurd rfl hg | exact ho)
  exact ⟨hsplit.1, ⟨fields', hsplit.2.1⟩, hsplit.2⟩

theorem readField_total (hold : fields.Slot new f none) (hread : f.Readable new v) :
    ∃ fields', readField new fields v f = .ok fields' := by
  rcases hread with ⟨other, hread⟩
  cases f <;>
    (rcases hread with ⟨a, hread, _⟩
     exact ⟨_, readOnce_eq_ok_iff.mpr ⟨hold, a, hread, rfl⟩⟩)

theorem slot_disjoint (h : fields.Slot new f none) : ¬ fields.Slot new f (some v) := by
  intro hread
  cases f <;>
    (rcases hread with ⟨a, _, hslot⟩
     have hnone := h
     simp only [ConfigFields.Slot, slotIs] at hnone
     rw [hnone] at hslot
     exact absurd hslot (by simp only [reduceCtorEq, not_false_eq_true]))

end Fields

/-- The reader of configurations. -/
def configReader (new : String → Except String Regex) :
    RecordReader ConfigFields String Json ConfigField DeError where
  ofName := ConfigField.ofName
  unknown := .unknownField
  start := {}
  read := readField new
  Readable := ConfigField.Readable new
  Slot := ConfigFields.Slot new
  slot_start f := by cases f <;> rfl
  slot_disjoint := slot_disjoint
  read_ok := readField_ok
  read_total := readField_total

theorem readAll_configReader (new : String → Except String Regex)
    (entries : List (String × Json)) :
    (configReader new).readAll entries = entries.foldlM (readEntry new) {} := by
  have hentry : (configReader new).readEntry = readEntry new := by
    funext fields entry
    unfold RecordReader.readEntry readEntry
    cases hname : ConfigField.ofName entry.1 with
    | none => simp only [configReader, hname]
    | some f => simp only [configReader, hname]
  rw [RecordReader.readAll, hentry]
  rfl

/-! ### The record -/

section Record

variable {new : String → Except String Regex} {entries : List (String × Json)} {c c' : Config}

theorem fieldIs_getD {α : Type} {read : Json → Except DeError α} {slot : Option α} {default : α}
    {o : Option Json} (h : slotIs read slot o) : fieldIs read default (slot.getD default) o := by
  cases o with
  | none =>
      rw [slotIs] at h
      rw [h]
      rfl
  | some v =>
      rcases h with ⟨a, hread, rfl⟩
      exact hread

theorem fieldIs_build {fields : ConfigFields} {f : ConfigField} {o : Option Json}
    (h : fields.Slot new f o) : fields.build.FieldIs new f o := by
  cases f <;> exact fieldIs_getD h

/-- Every field of a configuration, as read. -/
def Config.fields (c : Config) : ConfigFields where
  lcmUrl := some c.lcmUrl
  keyPrefix := some c.keyPrefix
  allow := some c.allow
  deny := some c.deny
  networkInterface := some c.networkInterface
  maxMessageSize := some c.maxMessageSize
  workThreadNum := some c.workThreadNum
  maxBlockThreadNum := some c.maxBlockThreadNum
  required := some c.required
  path := some c.path

theorem readable_of_fieldIs {f : ConfigField} {v : Json} (h : c.FieldIs new f (some v)) :
    f.Readable new v := by
  refine ⟨c.fields, ?_⟩
  cases f <;> exact ⟨_, h, rfl⟩

theorem fieldIs_unique {α : Type} {read : Json → Except DeError α} {default a a' : α}
    {o : Option Json} (h : fieldIs read default a o) (h' : fieldIs read default a' o) : a = a' := by
  cases o with
  | none => exact h.trans h'.symm
  | some v => exact Except.ok.inj (h.symm.trans h')

/-- What the fields hold is all there is to a configuration. -/
theorem config_eq {value : ConfigField → Option Json} (h : ∀ f, c.FieldIs new f (value f))
    (h' : ∀ f, c'.FieldIs new f (value f)) : c = c' := by
  cases c
  cases c'
  rw [Config.mk.injEq]
  exact ⟨fieldIs_unique (h .lcmUrl) (h' .lcmUrl), fieldIs_unique (h .keyPrefix) (h' .keyPrefix),
    fieldIs_unique (h .allow) (h' .allow), fieldIs_unique (h .deny) (h' .deny),
    fieldIs_unique (h .networkInterface) (h' .networkInterface),
    fieldIs_unique (h .maxMessageSize) (h' .maxMessageSize),
    fieldIs_unique (h .workThreadNum) (h' .workThreadNum),
    fieldIs_unique (h .maxBlockThreadNum) (h' .maxBlockThreadNum),
    fieldIs_unique (h .required) (h' .required), fieldIs_unique (h .path) (h' .path)⟩

/-- An object is read as a configuration exactly when its names are those of
    fields, none of them comes twice, and each field holds what the value under
    its name is read as, or its default if there is none. -/
theorem deserialize_object_iff (new : String → Except String Regex)
    (entries : List (String × Json)) (c : Config) :
    deserializeConfig new (.object entries) = .ok c ↔
      (∀ e ∈ entries, (ConfigField.ofName e.1).isSome) ∧ (entries.map Prod.fst).Nodup ∧
        ∀ f, c.FieldIs new f (entries.lookup f.name) := by
  have hvalue : ∀ f, (configReader new).valueOf f entries = entries.lookup f.name :=
    fun f => find?_name_eq_lookup f entries
  constructor
  · intro h
    rcases Checked.bind_eq_ok.mp h with ⟨fields, hfields, hbuild⟩
    rw [← readAll_configReader] at hfields
    rcases RecordReader.readAll_ok hfields with ⟨hadm, hslots⟩
    refine ⟨hadm.known, (nodup_names_iff hadm.known).mp hadm.nodup, fun f => ?_⟩
    rw [← Except.ok.inj hbuild, ← hvalue]
    exact fieldIs_build (hslots f)
  · rintro ⟨hknown, hnodup, hfields⟩
    -- Every value is one of its field, because the field holds it.
    have hadm : (configReader new).Admissible entries := by
      refine ⟨hknown, (nodup_names_iff hknown).mpr hnodup, fun f v hv => ?_⟩
      have hfield := hfields f
      rw [← hvalue, hv] at hfield
      exact readable_of_fieldIs hfield
    rcases RecordReader.exists_readAll hadm with ⟨fields, hread⟩
    have hslots := (RecordReader.readAll_ok hread).2
    have hbuild : fields.build = c := by
      refine config_eq (fun f => ?_) hfields
      rw [← hvalue]
      exact fieldIs_build (hslots f)
    rw [readAll_configReader] at hread
    exact Checked.bind_eq_ok.mpr ⟨fields, hread, congrArg Except.ok hbuild⟩

/-- An empty object is read as the default configuration. -/
example : deserializeConfig new (.object []) = .ok Config.default := rfl

end Record

end LcmBridge
