import LcmBridge.Core.Arguments
import LcmBridge.Core.Url
import LcmBridge.Theory.Format
import LcmBridge.Theory.Reload

/-!
# What the Arguments Say

The configuration the plugin gets, from a file and the command line.

An object stands for the values under its names (`Represents`), and storing
changes one of them. So after all arguments have been written, the value of a
field is the argument if it was given, and else what the file has. Reading the
object then gives each field that value, or its default (`parseArgs_iff`): the
command line goes before the file, and the file before the defaults, for each
field by itself.

The arguments are written as strings, whatever they contain, so a pattern may
have quotes and backslashes in it. Only the size is read as JSON5, and a text
that is none stops the executable.

## Main definitions

* `Represents`: An object has these values.
* `ConfigStore.Faithful`: What the configuration of Zenoh is trusted with.
* `LcmArgs.value`: What the arguments say of a field.

## Theorems

* `insertArg_represents`: Writing one argument.
* `parseArgs_represents`: Writing all of them.
* `deserialize_represents_iff`: Reading an object by its values.
* `fields_of_parseArgs`: What a configuration of the plugin holds.
* `parseArgs_iff`: The configuration of the plugin.
-/

namespace LcmBridge

/-- An object, without repeated names, that has these values under its names. -/
def Represents (config : Json) (value : String → Option Json) : Prop :=
  ∃ entries : List (String × Json), config = .object entries ∧ (entries.map Prod.fst).Nodup ∧
    ∀ k, entries.lookup k = value k

/-- A text that was written for a string is read as this string, and storing a
    value puts it under its name and leaves the others. -/
structure ConfigStore.Faithful (store : ConfigStore) : Prop where
  json5_toText : ∀ s, store.json5 (store.toText s) = some (.string s)
  insert_represents : ∀ {config : Json} {value : String → Option Json} (k : String) (v : Json),
    Represents config value →
      ∃ config', store.insert config k v = some config' ∧
        Represents config' (Function.update value k (some v))

/-- What the arguments say of a field. -/
def LcmArgs.value (args : LcmArgs) (json5 : String → Option Json) : ConfigField → Option Json
  | .lcmUrl => args.lcmUrl.map .string
  | .keyPrefix => args.keyPrefix.map .string
  | .allow => args.allow.map .string
  | .deny => args.deny.map .string
  | .networkInterface => args.networkInterface.map .string
  | .maxMessageSize => args.maxMessageSize.bind json5
  | _ => none

section Writing

variable {store : ConfigStore} {config : Json} {value : String → Option Json}

/-- The values after one of them has been overwritten, or not. -/
def overwrite (value : String → Option Json) (k : String) (o : Option Json) : String → Option Json :=
  Function.update value k (o.or (value k))

theorem overwrite_none (value : String → Option Json) (k : String) :
    overwrite value k none = value := by
  rw [overwrite, Option.none_or, Function.update_eq_self]

theorem overwrite_of_ne (value : String → Option Json) {k k' : String} (h : k' ≠ k)
    (o : Option Json) : overwrite value k o k' = value k' :=
  Function.update_of_ne h _ _

theorem insertArg_represents (hstore : store.Faithful) (h : Represents config value) (k : String)
    (arg : Option String) :
    ∃ config', store.insertArg k arg config = some config' ∧
      Represents config' (overwrite value k (arg.map .string)) := by
  cases arg with
  | none =>
      rw [Option.map_none, overwrite_none]
      exact ⟨config, rfl, h⟩
  | some s =>
      rw [ConfigStore.insertArg, ConfigStore.insertJson5, hstore.json5_toText, Option.bind_some]
      exact hstore.insert_represents k (.string s) h

/-- The values after all arguments have been written. -/
def LcmArgs.over (args : LcmArgs) (size : Option Json) (value : String → Option Json) :
    String → Option Json :=
  overwrite (overwrite (overwrite (overwrite (overwrite (overwrite value
    "lcm_url" (args.lcmUrl.map .string))
    "key_prefix" (args.keyPrefix.map .string))
    "allow" (args.allow.map .string))
    "deny" (args.deny.map .string))
    "network_interface" (args.networkInterface.map .string))
    "max_message_size" size

/-- Writing the arguments in their order. The last one stops everything if it
    cannot be read. -/
theorem parseArgs_represents (hstore : store.Faithful) (args : LcmArgs) {plugin : Option Json}
    (h : Represents (plugin.getD (.object [])) value) :
    (∀ text, args.maxMessageSize = some text → (store.json5 text).isSome) ∧
        (∃ config', parseArgs store args plugin = some config' ∧
          Represents config' (args.over (args.maxMessageSize.bind store.json5) value)) ∨
      (∃ text, args.maxMessageSize = some text ∧ store.json5 text = none) ∧
        parseArgs store args plugin = none := by
  rcases insertArg_represents hstore h "lcm_url" args.lcmUrl with ⟨c₁, h₁, hc₁⟩
  rcases insertArg_represents hstore hc₁ "key_prefix" args.keyPrefix with ⟨c₂, h₂, hc₂⟩
  rcases insertArg_represents hstore hc₂ "allow" args.allow with ⟨c₃, h₃, hc₃⟩
  rcases insertArg_represents hstore hc₃ "deny" args.deny with ⟨c₄, h₄, hc₄⟩
  rcases insertArg_represents hstore hc₄ "network_interface" args.networkInterface with
    ⟨c₅, h₅, hc₅⟩
  cases hsize : args.maxMessageSize with
  | none =>
      have hargs : parseArgs store args plugin = some c₅ := by
        simp only [parseArgs, h₁, h₂, h₃, h₄, h₅, hsize, Option.bind_eq_bind, Option.bind_some]
      refine Or.inl ⟨fun text htext => absurd htext (by simp only [reduceCtorEq,
        not_false_eq_true]), c₅, hargs, ?_⟩
      rw [LcmArgs.over, Option.bind_none, overwrite_none]
      exact hc₅
  | some text =>
      have hargs : parseArgs store args plugin = store.insertJson5 c₅ "max_message_size" text := by
        simp only [parseArgs, h₁, h₂, h₃, h₄, h₅, hsize, Option.bind_eq_bind, Option.bind_some]
      cases hjson : store.json5 text with
      | none =>
          refine Or.inr ⟨⟨text, rfl, hjson⟩, ?_⟩
          rw [hargs]
          simp only [ConfigStore.insertJson5, hjson, Option.bind_none]
      | some v =>
          rcases hstore.insert_represents "max_message_size" v hc₅ with ⟨c₆, h₆, hc₆⟩
          refine Or.inl ⟨fun text' htext' => ?_, c₆, ?_, ?_⟩
          · rw [← Option.some.inj htext', hjson, Option.isSome_some]
          · rw [hargs]
            simp only [ConfigStore.insertJson5, hjson, Option.bind_some, h₆]
          · rw [LcmArgs.over, Option.bind_some, hjson]
            exact hc₆

end Writing

section Reading

variable {new : String → Except String Regex} {config : Json} {value : String → Option Json}
  {args : LcmArgs} {json5 : String → Option Json}

/-- An object is read by its values. -/
theorem deserialize_represents_iff (h : Represents config value) (c : Config) :
    deserializeConfig new config = .ok c ↔
      (∀ k, (value k).isSome → (ConfigField.ofName k).isSome) ∧
        ∀ f, c.FieldIs new f (value f.name) := by
  rcases h with ⟨entries, rfl, hnodup, hvalue⟩
  rw [deserialize_object_iff]
  have hknown : (∀ e ∈ entries, (ConfigField.ofName e.1).isSome) ↔
      ∀ k, (value k).isSome → (ConfigField.ofName k).isSome := by
    constructor
    · intro h k hk
      rw [← hvalue] at hk
      rcases Option.isSome_iff_exists.mp hk with ⟨v, hv⟩
      rcases List.lookup_eq_some_iff.mp hv with ⟨l₁, l₂, hsplit, _⟩
      exact h (k, v) (by
        rw [hsplit]
        exact List.mem_append_right _ List.mem_cons_self)
    · intro h e he
      refine h e.1 (Option.isSome_iff_ne_none.mpr (fun hnone => ?_))
      rw [← hvalue, List.lookup_eq_none_iff] at hnone
      exact absurd (hnone e he) (by simp only [bne_self_eq_false, Bool.false_eq_true,
        not_false_eq_true])
  simp only [hknown, hnodup, hvalue, true_and]

/-- The value of a field is the argument, if it was given. -/
theorem over_name (f : ConfigField) :
    args.over (args.maxMessageSize.bind json5) value f.name
      = (args.value json5 f).or (value f.name) := by
  cases f <;> simp [LcmArgs.over, LcmArgs.value, overwrite, Function.update, ConfigField.name]

/-- The arguments only write fields. -/
theorem over_of_unknown {size : Option Json} {k : String} (h : ConfigField.ofName k = none) :
    args.over size value k = value k := by
  have hne : ∀ f : ConfigField, k ≠ f.name := by
    intro f hk
    rw [hk, ConfigField.ofName_name] at h
    exact absurd h (by simp only [reduceCtorEq, not_false_eq_true])
  refine (overwrite_of_ne _ (hne .maxMessageSize) _).trans ?_
  refine (overwrite_of_ne _ (hne .networkInterface) _).trans ?_
  refine (overwrite_of_ne _ (hne .deny) _).trans ?_
  refine (overwrite_of_ne _ (hne .allow) _).trans ?_
  refine (overwrite_of_ne _ (hne .keyPrefix) _).trans ?_
  exact overwrite_of_ne _ (hne .lcmUrl) _

/-- Reading what the arguments were written into. They add no unknown names. -/
theorem deserialize_over_iff {new : String → Except String Regex}
    (h : Represents config (args.over (args.maxMessageSize.bind json5) value)) (c : Config) :
    deserializeConfig new config = .ok c ↔
      (∀ k, (value k).isSome → (ConfigField.ofName k).isSome) ∧
        ∀ f, c.FieldIs new f ((args.value json5 f).or (value f.name)) := by
  rw [deserialize_represents_iff h]
  simp only [over_name]
  refine and_congr_left (fun _ => forall_congr' (fun k => ?_))
  cases hk : ConfigField.ofName k with
  | some f => simp only [Option.isSome_some, implies_true]
  | none => rw [over_of_unknown hk]

end Reading

/-- The plugin gets a configuration exactly when the file has no names but those
    of fields, the size on the command line is a JSON5 text, and each field can
    be read. A field is read from the argument if it was given, else from the
    file, and has its default if it is in neither. -/
theorem parseArgs_iff {store : ConfigStore} (hstore : store.Faithful)
    (new : String → Except String Regex) (args : LcmArgs) {plugin : Option Json}
    {file : String → Option Json} (hfile : Represents (plugin.getD (.object [])) file)
    (c : Config) :
    (∃ config, parseArgs store args plugin = some config ∧
        deserializeConfig new config = .ok c) ↔
      (∀ k, (file k).isSome → (ConfigField.ofName k).isSome) ∧
        (∀ text, args.maxMessageSize = some text → (store.json5 text).isSome) ∧
        ∀ f, c.FieldIs new f ((args.value store.json5 f).or (file f.name)) := by
  rcases parseArgs_represents hstore args hfile with
    ⟨hsize, config, hargs, hconfig⟩ | ⟨⟨text, htext, hjson⟩, hargs⟩
  · rw [hargs]
    constructor
    · rintro ⟨config', hsome, hdeserialize⟩
      rw [← Option.some.inj hsome, deserialize_over_iff hconfig] at hdeserialize
      exact ⟨hdeserialize.1, hsize, hdeserialize.2⟩
    · rintro ⟨hknown, _, hfields⟩
      exact ⟨config, rfl, (deserialize_over_iff hconfig c).mpr ⟨hknown, hfields⟩⟩
  · rw [hargs]
    constructor
    · rintro ⟨config', hsome, _⟩
      exact absurd hsome (by simp only [reduceCtorEq, not_false_eq_true])
    · rintro ⟨_, hsize, _⟩
      have hsome := hsize text htext
      rw [hjson] at hsome
      exact absurd hsome (by simp only [Option.isSome_none, Bool.false_eq_true,
        not_false_eq_true])

/-! ### A store -/

/-- A store that knows strings in plain quotes and unsigned numbers. -/
def plainStore : ConfigStore where
  json5 text :=
    match text.toList with
    | '"' :: rest => some (.string (String.ofList rest.dropLast))
    | _ => (parseUsize text).toOption.map (fun n => .integer n.val)
  insert config k v :=
    match config with
    | .object entries => some (.object ((k, v) :: entries.filter (fun e => e.1 ≠ k)))
    | _ => none
  toText s := String.ofList ('"' :: s.toList ++ ['"'])

theorem lookup_filter_of_ne {entries : List (String × Json)} {k k' : String} (h : k' ≠ k) :
    (entries.filter (fun e => e.1 ≠ k)).lookup k' = entries.lookup k' := by
  induction entries with
  | nil => rfl
  | cons e entries ih =>
      obtain ⟨name, v⟩ := e
      by_cases hname : name = k
      · have hne : (k' == name) = false := beq_false_of_ne (by rw [hname]; exact h)
        simp only [List.filter_cons, hname, ne_eq, not_true_eq_false, decide_false,
          Bool.false_eq_true, if_false]
        rw [ih, List.lookup_cons, ← hname, hne]
      · simp only [List.filter_cons, ne_eq, hname, not_false_eq_true, decide_true, if_true,
          List.lookup_cons, ih]

theorem plainStore_faithful : plainStore.Faithful where
  json5_toText s := by
    simp only [plainStore, String.toList_ofList, List.cons_append, List.dropLast_concat,
      String.ofList_toList]
  insert_represents {config value} k v h := by
    rcases h with ⟨entries, rfl, hnodup, hvalue⟩
    refine ⟨_, rfl, _, rfl, ?_, fun k' => ?_⟩
    · rw [List.map_cons, List.nodup_cons]
      refine ⟨fun hk => ?_, hnodup.sublist (List.filter_sublist.map _)⟩
      rcases List.mem_map.mp hk with ⟨e, he, hname⟩
      exact of_decide_eq_true (List.mem_filter.mp he).2 hname
    · rw [List.lookup_cons]
      by_cases hk : k' = k
      · rw [hk, beq_self_eq_true, Function.update_self]
      · rw [beq_false_of_ne hk, Function.update_of_ne hk, ← hvalue]
        exact lookup_filter_of_ne hk

/-- The prefix is in the file and on the command line, the URL only in the file,
    and the size only on the command line. -/
theorem parseArgs_iff_prefix :
    ∃ config, parseArgs plainStore ⟨none, some "lab", none, none, none, some "9000"⟩
        (some (.object [("lcm_url", .string "udpm://239.255.76.67:7700"),
          ("key_prefix", .string "robot")])) = some config ∧
      deserializeConfig compileKnown config
        = .ok { Config.default with
            lcmUrl := "udpm://239.255.76.67:7700"
            keyPrefix := "lab"
            maxMessageSize := 9000 } := by
  refine (parseArgs_iff plainStore_faithful compileKnown
    ⟨none, some "lab", none, none, none, some "9000"⟩
    ⟨[("lcm_url", .string "udpm://239.255.76.67:7700"), ("key_prefix", .string "robot")], rfl,
      by decide, fun _ => rfl⟩ _).mpr ⟨fun k hk => ?_, fun text htext => ?_, fun f => ?_⟩
  · rcases List.lookup_isSome_iff.mp hk with ⟨e, he, hname⟩
    rw [eq_of_beq hname]
    simp only [List.mem_cons, List.not_mem_nil, or_false] at he
    rcases he with rfl | rfl
    · exact rfl
    · exact rfl
  · rw [← Option.some.inj htext]
    rfl
  · cases f with
    | maxMessageSize => exact readUsize_integer (by decide)
    | _ => rfl

end LcmBridge
