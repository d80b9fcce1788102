import Mathlib.Data.List.Basic
import Mathlib.Tactic.Common

/-!
# Channels and Key Expressions

The mapping between LCM channel names and Zenoh key expressions.

A channel `C` under the prefix `p` is the key `p/C`, and going back is
stripping `p/`. Either direction can refuse. Whether a string is a key
expression at all is for Zenoh to decide, so the constructor `tryFrom` is a
parameter; a key expression itself carries the little the bridge may assume
of one.

The error texts are those given to Zenoh's `bail!`, which adds the place in the
source to each (` at <file>:<line>.`).

## Main definitions

* `KeyExpr`: A Zenoh key expression.
* `lcmChannelToKeyExpr`: From a channel name to a key expression.
* `stripPrefix`: The string that follows a prefix.
* `keyExprToLcmChannel`: From a key expression to a channel name.

## Theorems

* `stripPrefix_eq_some_iff`: Stripping undoes appending.
* `keyExprToLcmChannel_eq_ok_iff`: Which keys a channel is extracted from.
* `lcmChannelToKeyExpr_eq_ok_iff`: Which channels are mapped, and to what.
* `extract_of_map`: Extraction undoes the mapping.
-/

namespace LcmBridge

/-- What is known of a key expression: it is not empty, and neither is any of
    the chunks between its slashes, and it has no `#` and no `?`. -/
def KeyExpr.Valid (s : String) : Prop :=
  s ≠ "" ∧ [] ∉ s.toList.splitOn '/' ∧ '#' ∉ s.toList ∧ '?' ∉ s.toList

instance (s : String) : Decidable (KeyExpr.Valid s) := inferInstanceAs (Decidable (_ ∧ _))

/-- A Zenoh key expression. -/
structure KeyExpr where
  asStr : String
  valid : KeyExpr.Valid asStr
  deriving DecidableEq

/-- Build a key expression from any string that is known to be one. -/
def KeyExpr.ofValid (s : String) : Except String KeyExpr :=
  if h : KeyExpr.Valid s then .ok ⟨s, h⟩ else .error s

/-- Map an LCM channel name to a Zenoh key expression. -/
def lcmChannelToKeyExpr (tryFrom : String → Except String KeyExpr) (channel keyPrefix : String) :
    Except String KeyExpr :=
  -- Reject channels with Zenoh wildcard and reserved characters.
  if '*' ∈ channel.toList ∨ '#' ∈ channel.toList ∨ '$' ∈ channel.toList then
    .error ("LCM channel '" ++ channel ++ "' contains Zenoh-reserved characters (* # $)")
  else if channel = "" then .error "LCM channel name is empty"
  else tryFrom (keyPrefix ++ "/" ++ channel)

/-- The rest of a string after a prefix, if it starts with it. -/
def stripPrefix (s expected : String) : Option String :=
  (s.toList.dropPrefix? expected.toList).map String.ofList

/-- Extract the LCM channel name from a key expression by stripping the
    prefix. -/
def keyExprToLcmChannel (keyExpr : KeyExpr) (keyPrefix : String) : Except String String :=
  let keyStr := keyExpr.asStr
  let expectedPrefix := keyPrefix ++ "/"
  match stripPrefix keyStr expectedPrefix with
  | some channel =>
      if channel = "" then
        .error ("Zenoh key '" ++ keyStr ++ "' has empty channel after prefix '" ++ keyPrefix ++ "'")
      else .ok channel
  | none =>
      .error ("Zenoh key '" ++ keyStr ++ "' does not start with expected prefix '" ++
        expectedPrefix ++ "'")

-- Stripping is done on characters, appending on strings.
theorem stripPrefix_eq_some_iff {s expected rest : String} :
    stripPrefix s expected = some rest ↔ s = expected ++ rest := by
  unfold stripPrefix
  rw [Option.map_eq_some_iff]
  constructor
  · intro h
    rcases h with ⟨cs, hcs, rfl⟩
    rcases List.dropPrefix?_eq_some_iff.mp hcs with ⟨front, happ, hfront⟩
    rw [← String.toList_inj, String.toList_append, String.toList_ofList, happ, eq_of_beq hfront]
  · rintro rfl
    refine ⟨rest.toList, ?_, String.ofList_toList⟩
    exact List.dropPrefix?_eq_some_iff.mpr
      ⟨expected.toList, String.toList_append, beq_self_eq_true _⟩

/-- A channel is extracted from the keys that are the prefix, a slash and the
    channel. -/
theorem keyExprToLcmChannel_eq_ok_iff {keyExpr : KeyExpr} {keyPrefix channel : String} :
    keyExprToLcmChannel keyExpr keyPrefix = .ok channel ↔
      keyExpr.asStr = keyPrefix ++ "/" ++ channel ∧ channel ≠ "" := by
  unfold keyExprToLcmChannel
  dsimp only
  -- In terms of what is stripped, the two sides have the same branches.
  rw [← stripPrefix_eq_some_iff]
  cases hstrip : stripPrefix keyExpr.asStr (keyPrefix ++ "/") with
  | none => simp only [reduceCtorEq, false_and]
  | some rest =>
      by_cases hempty : rest = ""
      · simp only [hempty, if_true, reduceCtorEq, Option.some.injEq, false_iff, not_and, not_not]
        exact fun h => h.symm
      · simp only [hempty, if_false, Except.ok.injEq, Option.some.injEq]
        constructor
        · rintro rfl
          exact ⟨rfl, hempty⟩
        · exact fun h => h.1

/-- A channel is mapped if it has no reserved character, is not empty, and its
    key is one that Zenoh accepts. -/
theorem lcmChannelToKeyExpr_eq_ok_iff {tryFrom : String → Except String KeyExpr}
    {channel keyPrefix : String} {keyExpr : KeyExpr} :
    lcmChannelToKeyExpr tryFrom channel keyPrefix = .ok keyExpr ↔
      ¬ ('*' ∈ channel.toList ∨ '#' ∈ channel.toList ∨ '$' ∈ channel.toList) ∧ channel ≠ "" ∧
        tryFrom (keyPrefix ++ "/" ++ channel) = .ok keyExpr := by
  unfold lcmChannelToKeyExpr
  by_cases hres : '*' ∈ channel.toList ∨ '#' ∈ channel.toList ∨ '$' ∈ channel.toList
  · rw [if_pos hres]
    simp only [reduceCtorEq, hres, not_true_eq_false, false_and]
  · rw [if_neg hres]
    by_cases hempty : channel = ""
    · rw [if_pos hempty]
      simp only [reduceCtorEq, hempty, ne_eq, not_true_eq_false, false_and, and_false]
    · rw [if_neg hempty]
      simp only [hres, hempty, ne_eq, not_false_eq_true, true_and]

/-- If Zenoh keeps the string a key is built from, extraction gives back the
    channel that was mapped. -/
theorem extract_of_map {tryFrom : String → Except String KeyExpr}
    (hkeep : ∀ s keyExpr, tryFrom s = .ok keyExpr → keyExpr.asStr = s)
    {channel keyPrefix : String} {keyExpr : KeyExpr}
    (h : lcmChannelToKeyExpr tryFrom channel keyPrefix = .ok keyExpr) :
    keyExprToLcmChannel keyExpr keyPrefix = .ok channel := by
  rcases lcmChannelToKeyExpr_eq_ok_iff.mp h with ⟨_, hne, htry⟩
  exact keyExprToLcmChannel_eq_ok_iff.mpr ⟨hkeep _ _ htry, hne⟩

end LcmBridge
