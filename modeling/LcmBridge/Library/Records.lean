import Mathlib.Data.List.Induction
import Mathlib.Data.List.Nodup

/-!
# Reading Records

A record that is read from a list of named entries, in their order.

Each entry belongs to a field, or its name is unknown. Reading it fails when
the field has been read before, or when the value is not one of the field.
Nothing else fails. So the order of the entries decides which error is reported
and nothing more: whether there is a record, and which, is a matter of the
value under each name (`readAll_ok`, `exists_readAll`).

The fields of a record have different types, so the state of the reader is left
abstract. What is known of it is a relation, between a state and what has been
read of one field.

## Main definitions

* `RecordReader`: The reader of one entry, and what it keeps of each field.
* `readEntry`, `readAll`: Reading one entry, and all of them.
* `valueOf`: The value under the name of a field.
* `Admissible`: The entries a record can be read from.

## Theorems

* `valueOf_append`: The value under a name, when an entry is added.
* `readAll_ok`: What is read, and of what.
* `exists_readAll`: Admissible entries can be read.
-/

namespace LcmBridge

/-- A reader of records. `Slot s f o` says that in the state `s` nothing has
    been read of the field `f`, or this value. -/
structure RecordReader (S N V F ε : Type) where
  ofName : N → Option F
  unknown : N → ε
  start : S
  read : S → V → F → Except ε S
  Readable : F → V → Prop
  Slot : S → F → Option V → Prop
  slot_start : ∀ f, Slot start f none
  slot_disjoint : ∀ {s f v}, Slot s f none → ¬ Slot s f (some v)
  read_ok : ∀ {s s' v f}, read s v f = .ok s' →
    Slot s f none ∧ Readable f v ∧ Slot s' f (some v) ∧
      ∀ g, g ≠ f → ∀ o, Slot s g o → Slot s' g o
  read_total : ∀ {s v f}, Slot s f none → Readable f v → ∃ s', read s v f = .ok s'

namespace RecordReader

variable {S N V F ε : Type} (R : RecordReader S N V F ε)

/-- Read one entry. -/
def readEntry (s : S) (entry : N × V) : Except ε S :=
  match R.ofName entry.1 with
  | some f => R.read s entry.2 f
  | none => .error (R.unknown entry.1)

/-- Read all entries. -/
def readAll (entries : List (N × V)) : Except ε S := entries.foldlM R.readEntry R.start

variable [DecidableEq F]

/-- The value under the name of a field. -/
def valueOf (f : F) (entries : List (N × V)) : Option V :=
  (entries.find? (fun e => R.ofName e.1 = some f)).map Prod.snd

/-- The entries a record can be read from: every name is that of a field, none
    of them comes twice, and every value is one of its field. -/
structure Admissible (entries : List (N × V)) : Prop where
  known : ∀ e ∈ entries, (R.ofName e.1).isSome
  nodup : (entries.map (fun e => R.ofName e.1)).Nodup
  readable : ∀ f v, R.valueOf f entries = some v → R.Readable f v

variable {R} {entries : List (N × V)} {entry : N × V} {f g : F} {s s' : S}

theorem valueOf_append (h : R.ofName entry.1 = some f) :
    R.valueOf g (entries ++ [entry])
      = (R.valueOf g entries).or (if f = g then some entry.2 else none) := by
  rw [valueOf, List.find?_append, Option.map_or]
  congr 1
  rw [List.find?_singleton, h]
  by_cases hfg : f = g
  · simp only [hfg, decide_true, if_true, Option.map_some]
  · simp only [Option.some.injEq, hfg, decide_false, Bool.false_eq_true, if_false, Option.map_none]

/-- A field without an entry is one whose name does not occur. -/
theorem valueOf_eq_none_iff :
    R.valueOf f entries = none ↔ some f ∉ entries.map (fun e => R.ofName e.1) := by
  rw [valueOf, Option.map_eq_none_iff, List.find?_eq_none, List.mem_map]
  constructor
  · rintro h ⟨e, he, hname⟩
    exact h e he (decide_eq_true hname)
  · intro h e he hname
    exact h ⟨e, he, of_decide_eq_true hname⟩

omit [DecidableEq F] in
theorem readAll_concat : R.readAll (entries ++ [entry]) = .ok s ↔
    ∃ mid f, R.readAll entries = .ok mid ∧ R.ofName entry.1 = some f ∧
      R.read mid entry.2 f = .ok s := by
  rw [readAll, List.foldlM_append]
  simp only [List.foldlM_cons, List.foldlM_nil, bind_pure]
  rw [← readAll]
  cases R.readAll entries with
  | error e => simp only [bind, Except.bind, reduceCtorEq, false_and, exists_false]
  | ok mid =>
      simp only [bind, Except.bind, readEntry]
      cases R.ofName entry.1 with
      | none => simp only [reduceCtorEq, false_and, and_false, exists_false]
      | some f =>
          constructor
          · intro h
            exact ⟨mid, f, rfl, rfl, h⟩
          · rintro ⟨mid', f', hmid, hf, h⟩
            rw [Except.ok.inj hmid, Option.some.inj hf]
            exact h

-- Induction on the end of the entries, where the state grows. A field that is
-- read last has not been read before, so its name is new.
theorem readAll_ok (h : R.readAll entries = .ok s) :
    R.Admissible entries ∧ ∀ f, R.Slot s f (R.valueOf f entries) := by
  induction entries using List.reverseRecOn generalizing s with
  | nil =>
      rw [readAll, List.foldlM_nil] at h
      rw [← Except.ok.inj h]
      exact ⟨⟨fun e he => absurd he List.not_mem_nil, List.nodup_nil, fun f v hv => by
        simp only [valueOf, List.find?_nil, Option.map_none, reduceCtorEq] at hv⟩, R.slot_start⟩
  | append_singleton entries entry ih =>
      rcases readAll_concat.mp h with ⟨mid, f, hmid, hname, hread⟩
      rcases ih hmid with ⟨hadm, hslots⟩
      rcases R.read_ok hread with ⟨hunread, hreadable, hnew, hframe⟩
      have hnone : R.valueOf f entries = none := by
        cases hvalue : R.valueOf f entries with
        | none => rfl
        | some v =>
            have hslot := hslots f
            rw [hvalue] at hslot
            exact absurd hslot (R.slot_disjoint hunread)
      have hvalue : ∀ g, R.valueOf g (entries ++ [entry])
          = if f = g then some entry.2 else R.valueOf g entries := by
        intro g
        rw [valueOf_append hname]
        by_cases hfg : f = g
        · rw [if_pos hfg, if_pos hfg, ← hfg, hnone, Option.none_or]
        · rw [if_neg hfg, if_neg hfg, Option.or_none]
      refine ⟨⟨fun e he => ?_, ?_, fun g v hv => ?_⟩, fun g => ?_⟩
      · rcases List.mem_append.mp he with he | he
        · exact hadm.known e he
        · rw [List.mem_singleton.mp he, hname, Option.isSome_some]
      · rw [List.map_append, List.map_singleton, hname, List.nodup_append]
        refine ⟨hadm.nodup, List.nodup_singleton _, fun x hx y hy hxy => ?_⟩
        rw [hxy, List.mem_singleton.mp hy] at hx
        exact valueOf_eq_none_iff.mp hnone hx
      · rw [hvalue] at hv
        split at hv
        · next hfg =>
            rw [← hfg, ← Option.some.inj hv]
            exact hreadable
        · exact hadm.readable g v hv
      · rw [hvalue]
        split
        · next hfg =>
            rw [← hfg]
            exact hnew
        · next hfg => exact hframe g (fun hgf => hfg hgf.symm) _ (hslots g)

theorem Admissible.init (h : R.Admissible (entries ++ [entry])) : R.Admissible entries where
  known e he := h.known e (List.mem_append_left _ he)
  nodup := by
    have hnodup := h.nodup
    rw [List.map_append] at hnodup
    exact hnodup.of_append_left
  readable g v hv := by
    refine h.readable g v ?_
    rw [valueOf, List.find?_append, Option.map_or]
    rw [valueOf] at hv
    rw [hv, Option.some_or]

/-- Admissible entries can be read. -/
theorem exists_readAll (h : R.Admissible entries) : ∃ s, R.readAll entries = .ok s := by
  induction entries using List.reverseRecOn with
  | nil => exact ⟨R.start, rfl⟩
  | append_singleton entries entry ih =>
      rcases ih h.init with ⟨mid, hmid⟩
      rcases Option.isSome_iff_exists.mp (h.known entry List.mem_concat_self) with ⟨f, hname⟩
      -- The field is new, because its name is.
      have hnone : R.valueOf f entries = none := by
        have hnodup := h.nodup
        rw [List.map_append, List.map_singleton, hname, List.nodup_append] at hnodup
        exact valueOf_eq_none_iff.mpr
          (fun hmem => hnodup.2.2 _ hmem _ (List.mem_singleton_self _) rfl)
      have hunread := (readAll_ok hmid).2 f
      rw [hnone] at hunread
      have hreadable : R.Readable f entry.2 := by
        refine h.readable f entry.2 ?_
        rw [valueOf_append hname, hnone, Option.none_or, if_pos rfl]
      rcases R.read_total hunread hreadable with ⟨s, hread⟩
      exact ⟨s, readAll_concat.mpr ⟨mid, f, hmid, hname, hread⟩⟩

end RecordReader

end LcmBridge
