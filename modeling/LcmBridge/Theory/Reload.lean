import LcmBridge.Core.Serde

/-!
# Reloading a Configuration

What becomes of the channel filter when a configuration is written and read
back.

Every field but the two patterns comes back as it was (`deserialize_serialize`),
in whatever order the object keeps its entries: the reader keeps track of the
fields it has read, and each entry adds one. A pattern that is there comes back
as one with the same matcher. One that is not there comes back as one that
matches every channel. For `allow` this is no difference. For `deny` it is the
opposite of what was written: a configuration that denies nothing comes back as
one that denies everything.

## Main definitions

* `Config.InRange`: The sizes are `usize` values.
* `ConfigFields.only`: Some of the fields of a record.
* `Recompiles`: A pattern whose text compiles to the same matcher.

## Theorems

* `readField_serializeField`: Reading one field that was written.
* `foldlM_readEntry`: Reading the entries in any order.
* `deserialize_serialize`: Reading a configuration that was written.
* `reload_filter_iff`: When the filter comes back as it was.
* `reload_denies_all`: The default configuration, which comes back denying all.
-/

namespace LcmBridge

/-- The sizes are `usize` values. -/
structure Config.InRange (c : Config) : Prop where
  maxMessageSize_lt : c.maxMessageSize < Checked.usizeBound
  workThreadNum_lt : c.workThreadNum < Checked.usizeBound
  maxBlockThreadNum_lt : c.maxBlockThreadNum < Checked.usizeBound

/-- The fields of a record that have been read. -/
def ConfigFields.only (c : Config) (read : ConfigField → Bool) : ConfigFields where
  lcmUrl := if read .lcmUrl then some c.lcmUrl else none
  keyPrefix := if read .keyPrefix then some c.keyPrefix else none
  allow := if read .allow then some c.allow else none
  deny := if read .deny then some c.deny else none
  networkInterface := if read .networkInterface then some c.networkInterface else none
  maxMessageSize := if read .maxMessageSize then some c.maxMessageSize else none
  workThreadNum := if read .workThreadNum then some c.workThreadNum else none
  maxBlockThreadNum := if read .maxBlockThreadNum then some c.maxBlockThreadNum else none
  required := if read .required then some c.required else none
  path := if read .path then some c.path else none

/-! ### Single values -/

theorem readUsize_integer {n : Nat} (h : n < Checked.usizeBound) :
    readUsize (.integer n) = .ok n := by
  have hrange : (0 : Int) ≤ n ∧ (n : Int) < Checked.usizeBound :=
    ⟨Int.natCast_nonneg n, Int.ofNat_lt.mpr h⟩
  unfold readUsize
  dsimp only
  rw [if_pos hrange, Int.toNat_natCast]

theorem readOption_elim {α : Type} {read : Json → Except DeError α} {write : α → Json}
    (hread : ∀ a, readOption read (write a) = .ok (some a)) (v : Option α) :
    readOption read (v.elim .null write) = .ok v := by
  cases v with
  | none => rfl
  | some a => exact hread a

theorem mapM_readString (paths : List String) : (paths.map Json.string).mapM readString
    = .ok paths := by
  induction paths with
  | nil => rfl
  | cons path paths ih =>
      rw [List.map_cons, List.mapM_cons, ih]
      rfl

theorem deserializePath_elim (v : Option (List String)) :
    deserializePath (v.elim .null (fun paths => .array (paths.map .string))) = .ok v := by
  cases v with
  | none => rfl
  | some paths =>
      have hread := mapM_readString paths
      simp only [Option.elim_some, deserializePath, hread, Except.map]

/-! ### The record -/

section Record

variable {new : String → Except String Regex} {c : Config} {allow deny : Regex}

theorem readOnce_of_none {α : Type} {field : ConfigField} {old : Option α} {a : α}
    {read : Except DeError α} {put : α → ConfigFields} (hold : old = none) (hread : read = .ok a) :
    readOnce field old read put = .ok (put a) := by
  rw [hold, hread]
  rfl

/-- Reading one field that was written adds it to those read before. -/
theorem readField_serializeField (hc : c.InRange)
    (hallow : deserializeRegex new (serializeAllow c.allow) = .ok (some allow))
    (hdeny : deserializeRegex new (serializeDeny c.deny) = .ok (some deny))
    {read : ConfigField → Bool} {f : ConfigField} (hf : read f = false) :
    readField new (.only { c with allow := some allow, deny := some deny } read)
        (serializeField c f) f
      = .ok (.only { c with allow := some allow, deny := some deny }
          (fun g => read g || g = f)) := by
  have hunread : ∀ {α : Type} (a : α), (if read f then some a else none) = none := by
    intro α a
    rw [hf]
    rfl
  cases f with
  | lcmUrl =>
      refine (readOnce_of_none (hunread _) rfl).trans ?_
      simp [ConfigFields.only]
  | keyPrefix =>
      refine (readOnce_of_none (hunread _) rfl).trans ?_
      simp [ConfigFields.only]
  | allow =>
      refine (readOnce_of_none (hunread _) hallow).trans ?_
      simp [ConfigFields.only]
  | deny =>
      refine (readOnce_of_none (hunread _) hdeny).trans ?_
      simp [ConfigFields.only]
  | networkInterface =>
      refine (readOnce_of_none (hunread _) (readOption_elim (fun _ => rfl) _)).trans ?_
      simp [ConfigFields.only]
  | maxMessageSize =>
      refine (readOnce_of_none (hunread _) (readUsize_integer hc.maxMessageSize_lt)).trans ?_
      simp [ConfigFields.only]
  | workThreadNum =>
      refine (readOnce_of_none (hunread _) (readUsize_integer hc.workThreadNum_lt)).trans ?_
      simp [ConfigFields.only]
  | maxBlockThreadNum =>
      refine (readOnce_of_none (hunread _) (readUsize_integer hc.maxBlockThreadNum_lt)).trans ?_
      simp [ConfigFields.only]
  | required =>
      refine (readOnce_of_none (hunread _) (readOption_elim (fun _ => rfl) _)).trans ?_
      simp [ConfigFields.only]
  | path =>
      refine (readOnce_of_none (hunread _) (deserializePath_elim _)).trans ?_
      simp [ConfigFields.only]

-- Induction on the entries. Each adds its field to those read before, and no
-- field comes twice.
theorem foldlM_readEntry (hc : c.InRange)
    (hallow : deserializeRegex new (serializeAllow c.allow) = .ok (some allow))
    (hdeny : deserializeRegex new (serializeDeny c.deny) = .ok (some deny))
    {order : List ConfigField} (hnodup : order.Nodup) :
    ∀ {read : ConfigField → Bool}, (∀ f ∈ order, read f = false) →
      (order.map (fun f => (f.name, serializeField c f))).foldlM (readEntry new)
          (.only { c with allow := some allow, deny := some deny } read)
        = .ok (.only { c with allow := some allow, deny := some deny }
            (fun g => read g || decide (g ∈ order))) := by
  induction order with
  | nil =>
      intro read _
      simp only [List.not_mem_nil, decide_false, Bool.or_false]
      rfl
  | cons f order ih =>
      intro read hread
      rw [List.nodup_cons] at hnodup
      have hentry : readEntry new (.only { c with allow := some allow, deny := some deny } read)
          (f.name, serializeField c f)
          = .ok (.only { c with allow := some allow, deny := some deny }
              (fun g => read g || g = f)) := by
        unfold readEntry
        rw [ConfigField.ofName_name]
        exact readField_serializeField hc hallow hdeny (hread f List.mem_cons_self)
      rw [List.map_cons, List.foldlM_cons, hentry]
      refine (ih hnodup.2 (fun g hg => ?_)).trans ?_
      · have hne : g ≠ f := by
          intro heq
          rw [heq] at hg
          exact hnodup.1 hg
        rw [hread g (List.mem_cons_of_mem f hg), Bool.false_or, decide_eq_false hne]
      · simp only [List.mem_cons, Bool.decide_or, Bool.or_assoc]

/-- A configuration that was written is read as itself, except that both
    patterns are there. -/
theorem deserialize_serialize (hc : c.InRange)
    (hallow : deserializeRegex new (serializeAllow c.allow) = .ok (some allow))
    (hdeny : deserializeRegex new (serializeDeny c.deny) = .ok (some deny))
    {order : List ConfigField} (horder : order.Perm ConfigField.all) :
    deserializeConfig new (serializeConfig c order)
      = .ok { c with allow := some allow, deny := some deny } := by
  have hnodup : order.Nodup := horder.nodup_iff.mpr (by decide)
  have hmem : ∀ f, f ∈ order := by
    intro f
    rw [horder.mem_iff]
    cases f <;> decide
  have hfold : (order.map (fun f => (f.name, serializeField c f))).foldlM (readEntry new)
        (.only { c with allow := some allow, deny := some deny } (fun _ => false))
      = .ok (.only { c with allow := some allow, deny := some deny }
          (fun g => false || decide (g ∈ order))) :=
    foldlM_readEntry hc hallow hdeny hnodup (fun _ _ => rfl)
  have hstart : ConfigFields.only { c with allow := some allow, deny := some deny }
      (fun _ => false) = {} := rfl
  unfold deserializeConfig serializeConfig
  dsimp only
  rw [← hstart, hfold]
  simp only [hmem, decide_true, Bool.or_true]
  rfl

end Record

/-! ### The filter -/

/-- The text compiles, to a pattern with this matcher. -/
def Recompiles (new : String → Except String Regex) (text : String) (isMatch : String → Bool) :
    Prop :=
  ∃ re, new text = .ok re ∧ ∀ s, re.isMatch s = isMatch s

section Filter

variable {new : String → Except String Regex}

/-- An optional pattern that was written comes back as one with its matcher, or,
    if there was none, as one that matches everything. -/
theorem deserializeRegex_string {v : Option Regex} {missing : String}
    (hpattern : ∀ re, v = some re → Recompiles new re.pattern re.isMatch)
    (hmissing : Recompiles new missing (fun _ => true)) :
    ∃ re, deserializeRegex new (.string (v.elim missing Regex.pattern)) = .ok (some re) ∧
      ∀ s, re.isMatch s = v.elim true (fun re => re.isMatch s) := by
  have hread : ∀ text re, new text = .ok re → deserializeRegex new (.string text)
      = .ok (some re) := by
    intro text re hnew
    simp only [deserializeRegex, readOption, readString, Except.map, bind, Except.bind, hnew]
    rfl
  cases v with
  | none =>
      rcases hmissing with ⟨re, hnew, hmatch⟩
      exact ⟨re, hread _ _ hnew, hmatch⟩
  | some pattern =>
      rcases hpattern pattern rfl with ⟨re, hnew, hmatch⟩
      exact ⟨re, hread _ _ hnew, hmatch⟩

/-- A configuration that was written is read back, and its filter treats a
    channel as before exactly when there is a pattern to deny channels, or one
    to allow them that the channel does not match. -/
theorem reload_filter_iff {c : Config} (hc : c.InRange)
    (hpattern : ∀ re, c.allow = some re ∨ c.deny = some re → Recompiles new re.pattern re.isMatch)
    (hany : Recompiles new ".*" (fun _ => true)) (hempty : Recompiles new "" (fun _ => true))
    {order : List ConfigField} (horder : order.Perm ConfigField.all) (channel : String) :
    ∃ c', deserializeConfig new (serializeConfig c order) = .ok c' ∧
      (isAllowed channel c' = isAllowed channel c ↔
        c.deny.isSome ∨ ∃ allow, c.allow = some allow ∧ allow.isMatch channel = false) := by
  rcases deserializeRegex_string (fun re h => hpattern re (Or.inl h)) hany with
    ⟨allow, hallow, hallowMatch⟩
  rcases deserializeRegex_string (fun re h => hpattern re (Or.inr h)) hempty with
    ⟨deny, hdeny, hdenyMatch⟩
  refine ⟨_, deserialize_serialize hc hallow hdeny horder, ?_⟩
  unfold isAllowed
  dsimp only
  rw [hallowMatch, hdenyMatch]
  -- The cases are those of the filter on the configuration that was written.
  cases c.allow with
  | none =>
      cases c.deny with
      | none => simp
      | some d => simp
  | some a =>
      cases c.deny with
      | none => simp
      | some d => simp

end Filter

/-- A regex crate that knows three patterns. -/
def compileKnown (text : String) : Except String Regex :=
  if text = ".*" ∨ text = "" then .ok ⟨text, fun _ => true⟩
  else if text = "^B$" then .ok ⟨text, fun s => s = "B"⟩
  else .error "unknown pattern"

/-- A configuration that denies one channel. -/
theorem reload_filter_iff_deny :
    Config.InRange { Config.default with deny := some ⟨"^B$", fun s => s = "B"⟩ } ∧
    ∃ c', deserializeConfig compileKnown
        (serializeConfig { Config.default with deny := some ⟨"^B$", fun s => s = "B"⟩ }
          ConfigField.all) = .ok c' ∧
      isAllowed "A" c'
        = isAllowed "A" { Config.default with deny := some ⟨"^B$", fun s => s = "B"⟩ } := by
  have hc : Config.InRange { Config.default with deny := some ⟨"^B$", fun s => s = "B"⟩ } :=
    ⟨by decide, by decide, by decide⟩
  have hpattern : ∀ re, Config.default.allow = some re ∨
      some (Regex.mk "^B$" (fun s => s = "B")) = some re →
      Recompiles compileKnown re.pattern re.isMatch := by
    intro re hre
    rcases hre with hre | hre
    · exact absurd hre (by simp only [Config.default, reduceCtorEq, not_false_eq_true])
    · rw [← Option.some.inj hre]
      exact ⟨_, rfl, fun _ => rfl⟩
  rcases reload_filter_iff hc hpattern ⟨_, rfl, fun _ => rfl⟩ ⟨_, rfl, fun _ => rfl⟩
    (List.Perm.refl _) "A" with ⟨c', hread, hiff⟩
  exact ⟨hc, c', hread, hiff.mpr (Or.inl rfl)⟩

/-- The default configuration allows every channel, and comes back denying
    every one. -/
theorem reload_denies_all :
    ∃ c', deserializeConfig compileKnown (serializeConfig Config.default ConfigField.all) = .ok c' ∧
      ∀ channel, isAllowed channel Config.default = true ∧ isAllowed channel c' = false :=
  ⟨_, rfl, fun _ => ⟨rfl, rfl⟩⟩

end LcmBridge
