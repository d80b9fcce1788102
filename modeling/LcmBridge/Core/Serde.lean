import LcmBridge.Core.Config
import LcmBridge.Library.Checked

/-!
# Serialising the Configuration

The configuration as a JSON value, in both directions.

Writing is field by field. The two patterns have writers of their own: where
there is no pattern, `allow` is written as a pattern that matches everything,
and `deny` as the empty string. Reading an object goes through its entries in
their order and rejects unknown and repeated fields; a field that is not there
gets its default. An array is read as the fields in the order of the record.

Compiling a pattern is for the regex crate to do, so its constructor is a
parameter. Its error is the text that the crate reports.

## Main definitions

* `Json`: A JSON value.
* `ConfigField`: The fields of the record, with their names.
* `serializeConfig`: From the record to a value.
* `DeError`: The ways reading can fail.
* `deserializeRegex`, `deserializePath`: The readers of single fields.
* `deserializeConfig`: From a value to the record.
-/

namespace LcmBridge

/-- A JSON value. An object keeps its entries in order; a number that is not an
    integer is kept as its text. -/
inductive Json where
  | null
  | bool (b : Bool)
  | integer (n : Int)
  | float (text : String)
  | string (s : String)
  | array (items : List Json)
  | object (entries : List (String × Json))

/-- The fields of the configuration record. -/
inductive ConfigField where
  | lcmUrl
  | keyPrefix
  | allow
  | deny
  | networkInterface
  | maxMessageSize
  | workThreadNum
  | maxBlockThreadNum
  | required
  | path
  deriving DecidableEq, Repr

namespace ConfigField

/-- The fields in the order of the record. -/
def all : List ConfigField :=
  [lcmUrl, keyPrefix, allow, deny, networkInterface, maxMessageSize, workThreadNum,
    maxBlockThreadNum, required, path]

/-- The name of a field in a value. -/
def name : ConfigField → String
  | lcmUrl => "lcm_url"
  | keyPrefix => "key_prefix"
  | allow => "allow"
  | deny => "deny"
  | networkInterface => "network_interface"
  | maxMessageSize => "max_message_size"
  | workThreadNum => "work_thread_num"
  | maxBlockThreadNum => "max_block_thread_num"
  | required => "__required__"
  | path => "__path__"

/-- The field of this name. -/
def ofName (s : String) : Option ConfigField := all.find? (fun f => f.name = s)

theorem ofName_name (f : ConfigField) : ofName f.name = some f := by
  cases f <;> rfl

end ConfigField

/-! ### Writing -/

def serializeAllow (v : Option Regex) : Json := .string (v.elim ".*" Regex.pattern)

def serializeDeny (v : Option Regex) : Json := .string (v.elim "" Regex.pattern)

/-- The value of one field. -/
def serializeField (c : Config) : ConfigField → Json
  | .lcmUrl => .string c.lcmUrl
  | .keyPrefix => .string c.keyPrefix
  | .allow => serializeAllow c.allow
  | .deny => serializeDeny c.deny
  | .networkInterface => c.networkInterface.elim .null .string
  | .maxMessageSize => .integer c.maxMessageSize
  | .workThreadNum => .integer c.workThreadNum
  | .maxBlockThreadNum => .integer c.maxBlockThreadNum
  | .required => c.required.elim .null .bool
  | .path => c.path.elim .null (fun paths => .array (paths.map .string))

/-- The configuration as a value. The fields are written in the order of the
    record, but the object may keep its entries in an order of its own. -/
def serializeConfig (c : Config) (order : List ConfigField) : Json :=
  .object (order.map (fun f => (f.name, serializeField c f)))

/-! ### Reading -/

/-- The ways reading a value can fail. -/
inductive DeError where
  | invalidType (unexpected : Json) (expected : String)
  | invalidValue (unexpected : Json) (expected : String)
  | invalidLength (length : Nat) (expected : String)
  | unknownField (field : String)
  | duplicateField (field : String)
  | custom (message : String)

def readString : Json → Except DeError String
  | .string s => .ok s
  | v => .error (.invalidType v "a string")

def readBool : Json → Except DeError Bool
  | .bool b => .ok b
  | v => .error (.invalidType v "a boolean")

/-- Read a `usize`. -/
def readUsize : Json → Except DeError Nat
  | .integer n =>
      if 0 ≤ n ∧ n < Checked.usizeBound then .ok n.toNat
      else .error (.invalidValue (.integer n) "usize")
  | v => .error (.invalidType v "usize")

/-- Read an optional value, which is absent if it is `null`. -/
def readOption {α : Type} (read : Json → Except DeError α) : Json → Except DeError (Option α)
  | .null => .ok none
  | v => (read v).map some

/-- Read an optional pattern and compile it. -/
def deserializeRegex (new : String → Except String Regex) (v : Json) :
    Except DeError (Option Regex) := do
  match ← readOption readString v with
  | some s =>
      match new s with
      | .ok re => return some re
      | .error e =>
          throw (.custom ("Invalid regex for 'allow' or 'deny': \"" ++ s ++ "\" - " ++ e))
  | none => return none

/-- Read a path: nothing, a string, or an array of strings. -/
def deserializePath : Json → Except DeError (Option (List String))
  | .null => .ok none
  | .string s => .ok (some [s])
  | .array items => (items.mapM readString).map some
  | v => .error (.invalidType v "a string or an array of strings")

/-- The fields read so far. -/
structure ConfigFields where
  lcmUrl : Option String := none
  keyPrefix : Option String := none
  allow : Option (Option Regex) := none
  deny : Option (Option Regex) := none
  networkInterface : Option (Option String) := none
  maxMessageSize : Option Nat := none
  workThreadNum : Option Nat := none
  maxBlockThreadNum : Option Nat := none
  required : Option (Option Bool) := none
  path : Option (Option (List String)) := none

/-- Read a field, unless it has been read before. -/
def readOnce {α : Type} (field : ConfigField) (old : Option α) (read : Except DeError α)
    (put : α → ConfigFields) : Except DeError ConfigFields :=
  if old.isSome then .error (.duplicateField field.name) else read.map put

/-- Read the value of one field. -/
def readField (new : String → Except String Regex) (fields : ConfigFields) (v : Json) :
    ConfigField → Except DeError ConfigFields
  | .lcmUrl => readOnce .lcmUrl fields.lcmUrl (readString v)
      (fun x => { fields with lcmUrl := some x })
  | .keyPrefix => readOnce .keyPrefix fields.keyPrefix (readString v)
      (fun x => { fields with keyPrefix := some x })
  | .allow => readOnce .allow fields.allow (deserializeRegex new v)
      (fun x => { fields with allow := some x })
  | .deny => readOnce .deny fields.deny (deserializeRegex new v)
      (fun x => { fields with deny := some x })
  | .networkInterface => readOnce .networkInterface fields.networkInterface
      (readOption readString v) (fun x => { fields with networkInterface := some x })
  | .maxMessageSize => readOnce .maxMessageSize fields.maxMessageSize (readUsize v)
      (fun x => { fields with maxMessageSize := some x })
  | .workThreadNum => readOnce .workThreadNum fields.workThreadNum (readUsize v)
      (fun x => { fields with workThreadNum := some x })
  | .maxBlockThreadNum => readOnce .maxBlockThreadNum fields.maxBlockThreadNum (readUsize v)
      (fun x => { fields with maxBlockThreadNum := some x })
  | .required => readOnce .required fields.required (readOption readBool v)
      (fun x => { fields with required := some x })
  | .path => readOnce .path fields.path (deserializePath v)
      (fun x => { fields with path := some x })

/-- Read one entry of an object. -/
def readEntry (new : String → Except String Regex) (fields : ConfigFields)
    (entry : String × Json) : Except DeError ConfigFields :=
  match ConfigField.ofName entry.1 with
  | some field => readField new fields entry.2 field
  | none => .error (.unknownField entry.1)

/-- The record, with the defaults of the fields that were not read. -/
def ConfigFields.build (fields : ConfigFields) : Config where
  lcmUrl := fields.lcmUrl.getD defaultLcmUrl
  keyPrefix := fields.keyPrefix.getD defaultKeyPrefix
  allow := fields.allow.getD none
  deny := fields.deny.getD none
  networkInterface := fields.networkInterface.getD none
  maxMessageSize := fields.maxMessageSize.getD defaultMaxMessageSize
  workThreadNum := fields.workThreadNum.getD defaultWorkThreadNum
  maxBlockThreadNum := fields.maxBlockThreadNum.getD defaultMaxBlockThreadNum
  required := fields.required.getD none
  path := fields.path.getD none

/-- Read a configuration. -/
def deserializeConfig (new : String → Except String Regex) : Json → Except DeError Config
  | .object entries => do
      let fields ← entries.foldlM (readEntry new) {}
      return fields.build
  | .array items => do
      let fields ← (ConfigField.all.zip items).foldlM
        (fun fields (field, v) => readField new fields v field) {}
      -- The field `__required__` has no default, so it must be there.
      if items.length ≤ 8 then throw (.invalidLength 8 "struct Config with 10 elements")
      else if items.length > 10 then throw (.invalidLength items.length "fewer elements in array")
      else return fields.build
  | v => .error (.invalidType v "struct Config")

end LcmBridge
