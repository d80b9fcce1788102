import LcmBridge.Core.Mapping

/-!
# The Two Directions of the Mapping

Whether a channel that is extracted from a key is mapped back to this key.

The direction from LCM to Zenoh refuses a channel with a reserved character.
The direction from Zenoh to LCM strips the prefix and looks no further, and a
key may well have such characters, since Zenoh lets a sample be published on a
key with wildcards. The two directions agree on the channels without `*` and
`$`. The third reserved character, `#`, is in no key at all.

## Main results

* `reserved_iff`: Which reserved characters an extracted channel may have.
* `map_of_extract_iff`: When an extracted channel is mapped back.
* `wildcard_not_mapped`: A channel that only one direction accepts.
* `accepted_iff`: Which channels both directions accept.
-/

namespace LcmBridge

section Directions

variable {tryFrom : String → Except String KeyExpr} {keyExpr : KeyExpr}
  {keyPrefix channel : String}

/-- An extracted channel has no `#`, because its key has none. -/
theorem reserved_iff (h : keyExprToLcmChannel keyExpr keyPrefix = .ok channel) :
    ('*' ∈ channel.toList ∨ '#' ∈ channel.toList ∨ '$' ∈ channel.toList) ↔
      '*' ∈ channel.toList ∨ '$' ∈ channel.toList := by
  have hhash : '#' ∉ channel.toList := by
    intro hmem
    refine keyExpr.valid.2.2.1 ?_
    rw [(keyExprToLcmChannel_eq_ok_iff.mp h).1, String.toList_append]
    exact List.mem_append_right _ hmem
  simp only [hhash, false_or]

/-- The channel extracted from a key is mapped back to this key exactly when it
    has no `*` and no `$`. -/
theorem map_of_extract_iff (htext : tryFrom keyExpr.asStr = .ok keyExpr)
    (h : keyExprToLcmChannel keyExpr keyPrefix = .ok channel) :
    lcmChannelToKeyExpr tryFrom channel keyPrefix = .ok keyExpr ↔
      '*' ∉ channel.toList ∧ '$' ∉ channel.toList := by
  rcases keyExprToLcmChannel_eq_ok_iff.mp h with ⟨hstr, hne⟩
  rw [lcmChannelToKeyExpr_eq_ok_iff, reserved_iff h, not_or, ← hstr]
  constructor
  · intro hmap
    exact hmap.1
  · intro hfree
    exact ⟨hfree, hne, htext⟩

/-- A hierarchical key under a hierarchical prefix. -/
theorem map_of_extract_iff_hierarchical :
    ∃ keyExpr, KeyExpr.ofValid "robot/lcm/sensors/imu" = .ok keyExpr ∧
      keyExprToLcmChannel keyExpr "robot/lcm" = .ok "sensors/imu" ∧
      lcmChannelToKeyExpr KeyExpr.ofValid "sensors/imu" "robot/lcm" = .ok keyExpr := by
  have htext : KeyExpr.ofValid "robot/lcm/sensors/imu"
      = .ok ⟨"robot/lcm/sensors/imu", by decide⟩ := rfl
  have hextract : keyExprToLcmChannel ⟨"robot/lcm/sensors/imu", by decide⟩ "robot/lcm"
      = .ok "sensors/imu" := keyExprToLcmChannel_eq_ok_iff.mpr ⟨by decide, by decide⟩
  exact ⟨_, htext, hextract, (map_of_extract_iff htext hextract).mpr ⟨by decide, by decide⟩⟩

/-- A sample on the key `lcm/*` goes to the channel `*`, which the other
    direction refuses. -/
theorem wildcard_not_mapped :
    ∃ keyExpr, KeyExpr.ofValid "lcm/*" = .ok keyExpr ∧ keyExpr.asStr = "lcm/*" ∧
      keyExprToLcmChannel keyExpr "lcm" = .ok "*" ∧
      lcmChannelToKeyExpr KeyExpr.ofValid "*" "lcm"
        = .error "LCM channel '*' contains Zenoh-reserved characters (* # $)" := by
  refine ⟨⟨"lcm/*", by decide⟩, rfl, rfl, ?_, rfl⟩
  exact keyExprToLcmChannel_eq_ok_iff.mpr ⟨by decide, by decide⟩

/-- If Zenoh accepts the text of every key and keeps it, a channel is mapped
    exactly when it is extracted from some key and has no `*` and no `$`. -/
theorem accepted_iff (htext : ∀ keyExpr, tryFrom keyExpr.asStr = .ok keyExpr)
    (hkeep : ∀ s keyExpr, tryFrom s = .ok keyExpr → keyExpr.asStr = s) :
    (∃ keyExpr, lcmChannelToKeyExpr tryFrom channel keyPrefix = .ok keyExpr) ↔
      (∃ keyExpr, keyExprToLcmChannel keyExpr keyPrefix = .ok channel) ∧
        '*' ∉ channel.toList ∧ '$' ∉ channel.toList := by
  constructor
  · intro h
    rcases h with ⟨keyExpr, hmap⟩
    have hextract := extract_of_map hkeep hmap
    have hfree := (lcmChannelToKeyExpr_eq_ok_iff.mp hmap).1
    rw [reserved_iff hextract, not_or] at hfree
    exact ⟨⟨keyExpr, hextract⟩, hfree⟩
  · intro h
    rcases h with ⟨⟨keyExpr, hextract⟩, hfree⟩
    rcases keyExprToLcmChannel_eq_ok_iff.mp hextract with ⟨hstr, hne⟩
    refine ⟨keyExpr, lcmChannelToKeyExpr_eq_ok_iff.mpr ⟨?_, hne, ?_⟩⟩
    · rw [reserved_iff hextract, not_or]
      exact hfree
    · rw [← hstr]
      exact htext keyExpr

end Directions

end LcmBridge
