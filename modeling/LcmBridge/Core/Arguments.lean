import LcmBridge.Core.Serde

/-!
# Command Line Arguments

How the arguments of the bridge executable get into the configuration of the
plugin.

The executable loads the configuration file, if one is given, and writes the
arguments over it, one after the other. Only the value under `plugins/lcm` is
kept here; what the executable does to the rest of the Zenoh configuration does
not concern the plugin.

Storing a value under a key and reading JSON5 is left to the configuration of
Zenoh, which is a parameter. Every step of the source is followed by an
`unwrap`, so the result is `none` when one of them fails.

## Main definitions

* `LcmArgs`: The arguments.
* `ConfigStore`: What is asked of the configuration of Zenoh.
* `insertJson5`, `insertArg`: Writing one argument.
* `parseArgs`: The configuration of the plugin, with the arguments.
-/

namespace LcmBridge

/-- The arguments that concern the plugin, each if it was given. -/
structure LcmArgs where
  lcmUrl : Option String
  keyPrefix : Option String
  allow : Option String
  deny : Option String
  networkInterface : Option String
  maxMessageSize : Option String

/-- The configuration of Zenoh: reading a JSON5 text, and storing a value under
    a name in the configuration of the plugin. `toText` is the text of a string
    as a JSON value. -/
structure ConfigStore where
  json5 : String → Option Json
  insert : Json → String → Json → Option Json
  toText : String → String

/-- Store what a text says under a name. -/
def ConfigStore.insertJson5 (store : ConfigStore) (config : Json) (key text : String) :
    Option Json :=
  (store.json5 text).bind (store.insert config key)

/-- Store an argument under a name, as a string, if it was given. -/
def ConfigStore.insertArg (store : ConfigStore) (key : String) (arg : Option String)
    (config : Json) : Option Json :=
  match arg with
  | some value => store.insertJson5 config key (store.toText value)
  | none => some config

/-- The configuration of the plugin: the one of the file, or an empty one if
    there is none, and the arguments over it. -/
def parseArgs (store : ConfigStore) (args : LcmArgs) (plugin : Option Json) : Option Json := do
  let config := plugin.getD (.object [])
  let config ← store.insertArg "lcm_url" args.lcmUrl config
  let config ← store.insertArg "key_prefix" args.keyPrefix config
  let config ← store.insertArg "allow" args.allow config
  let config ← store.insertArg "deny" args.deny config
  let config ← store.insertArg "network_interface" args.networkInterface config
  -- The size is not quoted, so that it is read as a number.
  match args.maxMessageSize with
  | some text => store.insertJson5 config "max_message_size" text
  | none => some config

end LcmBridge
