import Mathlib.Tactic.Common

/-!
# Plugin Configuration

The configuration record of the plugin and the channel filter.

A compiled regular expression is kept as its pattern together with the matcher
it denotes; the filter only ever asks the matcher. A channel passes if it
matches `allow`, where there is one, and does not match `deny`, where there is
one.

## Main definitions

* `Regex`: A pattern and its matcher.
* `Config`: The configuration record, with the source's defaults.
* `isAllowed`: The channel filter.
-/

namespace LcmBridge

/-- A compiled regular expression: its text, and which strings it matches. -/
structure Regex where
  pattern : String
  isMatch : String → Bool

def defaultLcmUrl : String := "udpm://239.255.76.67:7667?ttl=0"

def defaultKeyPrefix : String := "lcm"

/-- 4 MB. -/
def defaultMaxMessageSize : Nat := 4 * 1024 * 1024

def defaultWorkThreadNum : Nat := 2

def defaultMaxBlockThreadNum : Nat := 50

/-- The plugin configuration. -/
structure Config where
  lcmUrl : String
  keyPrefix : String
  allow : Option Regex
  deny : Option Regex
  networkInterface : Option String
  maxMessageSize : Nat
  workThreadNum : Nat
  maxBlockThreadNum : Nat
  required : Option Bool
  path : Option (List String)

/-- The configuration that an empty object stands for. -/
def Config.default : Config where
  lcmUrl := defaultLcmUrl
  keyPrefix := defaultKeyPrefix
  allow := none
  deny := none
  networkInterface := none
  maxMessageSize := defaultMaxMessageSize
  workThreadNum := defaultWorkThreadNum
  maxBlockThreadNum := defaultMaxBlockThreadNum
  required := none
  path := none

/-- Check if a channel name is allowed by the allow/deny configuration. -/
def isAllowed (channel : String) (config : Config) : Bool :=
  match config.allow, config.deny with
  | some allow, none => allow.isMatch channel
  | none, some deny => !deny.isMatch channel
  | some allow, some deny => allow.isMatch channel && !deny.isMatch channel
  | none, none => true

/-- Configurations with the same patterns have the same filter. -/
theorem isAllowed_congr {config config' : Config} (hallow : config.allow = config'.allow)
    (hdeny : config.deny = config'.deny) (channel : String) :
    isAllowed channel config = isAllowed channel config' := by
  unfold isAllowed
  rw [hallow, hdeny]

end LcmBridge
