import Mathlib.Data.List.Basic
import Mathlib.Tactic.Common

/-!
# Byte Strings

Fixed-width big-endian words, UTF-8 names, and names terminated by a zero
byte, all over `List UInt8`. Lists are what the proofs can take apart.

A word is split into its digits with division rather than shifts, so that
every round trip is linear arithmetic over `toNat`.

`splitAtNul` cuts a byte string at its first zero byte. A UTF-8 name is read
back from a terminated field exactly when it holds no zero byte of its own;
when it does hold one, `exists_name_before_nul` says what is read instead:
the part before the first zero, which is a name again, because the zero byte
is never part of a longer character.

## Main definitions

* `u16ToBeBytes`, `u32ToBeBytes`: The big-endian digits of a word.
* `u16FromBeBytes`, `u32FromBeBytes`: The word spelled by its digits.
* `readU16`, `readU32`: The word at a position of a buffer.
* `asBytes`: The UTF-8 encoding of a string.
* `fromUtf8`: The string a byte string encodes, if it is valid UTF-8.
* `splitAtNul`: The bytes before and after the first zero byte.

## Theorems

* `u16FromBeBytes_toBeBytes`, `u32FromBeBytes_toBeBytes`: Reading back a word.
* `u16ToBeBytes_fromBeBytes`, `u32ToBeBytes_fromBeBytes`: Writing back digits.
* `readU16_eq_iff`, `readU32_eq_iff`: A word is read where its digits stand.
* `fromUtf8_asBytes`: Decoding inverts encoding.
* `asBytes_of_fromUtf8`: Encoding inverts decoding.
* `zero_mem_asBytes_iff`: The zero byte encodes only the NUL character.
* `splitAtNul_append`: A terminated field splits at its terminator.
* `splitAtNul_eq_some_iff`: What a split says about the input.
* `exists_name_before_nul`: What precedes the first zero byte is a name.
-/

namespace LcmBridge

namespace Bytes

/-! ### Big-endian words -/

/-- The two digits of a 16-bit word, most significant first. -/
def u16ToBeBytes (x : UInt16) : List UInt8 :=
  [UInt8.ofNat (x.toNat / 256), UInt8.ofNat x.toNat]

/-- The 16-bit word spelled by two digits. -/
def u16FromBeBytes (b0 b1 : UInt8) : UInt16 :=
  UInt16.ofNat (b0.toNat * 256 + b1.toNat)

/-- The four digits of a 32-bit word, most significant first. -/
def u32ToBeBytes (x : UInt32) : List UInt8 :=
  [UInt8.ofNat (x.toNat / 16777216), UInt8.ofNat (x.toNat / 65536),
    UInt8.ofNat (x.toNat / 256), UInt8.ofNat x.toNat]

/-- The 32-bit word spelled by four digits. -/
def u32FromBeBytes (b0 b1 b2 b3 : UInt8) : UInt32 :=
  UInt32.ofNat (b0.toNat * 16777216 + b1.toNat * 65536 + b2.toNat * 256 + b3.toNat)

@[simp] theorem length_u16ToBeBytes (x : UInt16) : (u16ToBeBytes x).length = 2 := rfl

@[simp] theorem length_u32ToBeBytes (x : UInt32) : (u32ToBeBytes x).length = 4 := rfl

theorem u16FromBeBytes_toBeBytes (x : UInt16) :
    u16FromBeBytes (UInt8.ofNat (x.toNat / 256)) (UInt8.ofNat x.toNat) = x := by
  have hx := x.toNat_lt
  apply UInt16.toNat_inj.mp
  simp only [u16FromBeBytes, UInt16.toNat_ofNat', UInt8.toNat_ofNat']
  omega

theorem u32FromBeBytes_toBeBytes (x : UInt32) :
    u32FromBeBytes (UInt8.ofNat (x.toNat / 16777216)) (UInt8.ofNat (x.toNat / 65536))
      (UInt8.ofNat (x.toNat / 256)) (UInt8.ofNat x.toNat) = x := by
  have hx := x.toNat_lt
  apply UInt32.toNat_inj.mp
  simp only [u32FromBeBytes, UInt32.toNat_ofNat', UInt8.toNat_ofNat']
  omega

theorem u16ToBeBytes_fromBeBytes (b0 b1 : UInt8) :
    u16ToBeBytes (u16FromBeBytes b0 b1) = [b0, b1] := by
  have h0 := b0.toNat_lt
  have h1 := b1.toNat_lt
  simp only [u16ToBeBytes, u16FromBeBytes, UInt16.toNat_ofNat', List.cons.injEq, and_true,
    ← UInt8.toNat_inj, UInt8.toNat_ofNat']
  omega

theorem u32ToBeBytes_fromBeBytes (b0 b1 b2 b3 : UInt8) :
    u32ToBeBytes (u32FromBeBytes b0 b1 b2 b3) = [b0, b1, b2, b3] := by
  have h0 := b0.toNat_lt
  have h1 := b1.toNat_lt
  have h2 := b2.toNat_lt
  have h3 := b3.toNat_lt
  simp only [u32ToBeBytes, u32FromBeBytes, UInt32.toNat_ofNat', List.cons.injEq, and_true,
    ← UInt8.toNat_inj, UInt8.toNat_ofNat']
  omega

/-- The 16-bit word at position `i`. -/
def readU16 (buf : List UInt8) (i : Nat) (h : i + 2 ≤ buf.length) : UInt16 :=
  u16FromBeBytes buf[i] buf[i + 1]

/-- The 32-bit word at position `i`. -/
def readU32 (buf : List UInt8) (i : Nat) (h : i + 4 ≤ buf.length) : UInt32 :=
  u32FromBeBytes buf[i] buf[i + 1] buf[i + 2] buf[i + 3]

/-- A word is read exactly where its digits stand. -/
theorem readU16_eq_iff {buf : List UInt8} {i : Nat} (h : i + 2 ≤ buf.length) (x : UInt16) :
    readU16 buf i h = x ↔ (buf.drop i).take 2 = u16ToBeBytes x := by
  have hcut : (buf.drop i).take 2 = [buf[i], buf[i + 1]] := by
    rw [List.drop_eq_getElem_cons (by omega), List.drop_eq_getElem_cons (by omega)]
    rfl
  rw [hcut]
  constructor
  · rintro rfl
    exact (u16ToBeBytes_fromBeBytes _ _).symm
  · intro hx
    simp only [u16ToBeBytes, List.cons.injEq, and_true] at hx
    rw [readU16, hx.1, hx.2]
    exact u16FromBeBytes_toBeBytes x

theorem readU32_eq_iff {buf : List UInt8} {i : Nat} (h : i + 4 ≤ buf.length) (x : UInt32) :
    readU32 buf i h = x ↔ (buf.drop i).take 4 = u32ToBeBytes x := by
  have hcut : (buf.drop i).take 4 = [buf[i], buf[i + 1], buf[i + 2], buf[i + 3]] := by
    rw [List.drop_eq_getElem_cons (by omega), List.drop_eq_getElem_cons (by omega),
      List.drop_eq_getElem_cons (by omega), List.drop_eq_getElem_cons (by omega)]
    rfl
  rw [hcut]
  constructor
  · rintro rfl
    exact (u32ToBeBytes_fromBeBytes _ _ _ _).symm
  · intro hx
    simp only [u32ToBeBytes, List.cons.injEq, and_true] at hx
    rw [readU32, hx.1, hx.2.1, hx.2.2.1, hx.2.2.2]
    exact u32FromBeBytes_toBeBytes x

/-! ### UTF-8 names -/

/-- The UTF-8 encoding of a string. -/
def asBytes (s : String) : List UInt8 :=
  s.toByteArray.data.toList

/-- The string a byte string encodes, if it is valid UTF-8. -/
def fromUtf8 (bs : List UInt8) : Option String :=
  String.fromUTF8? ⟨bs.toArray⟩

theorem fromUtf8_asBytes (s : String) : fromUtf8 (asBytes s) = some s := by
  have hs : (⟨(asBytes s).toArray⟩ : ByteArray) = s.toByteArray := by
    simp only [asBytes, Array.toArray_toList]
  simp only [fromUtf8, String.fromUTF8?, hs, s.isValidUTF8, dif_pos, String.fromUTF8]

theorem asBytes_of_fromUtf8 {bs : List UInt8} {s : String} (h : fromUtf8 bs = some s) :
    asBytes s = bs := by
  simp only [fromUtf8, String.fromUTF8?] at h
  split at h
  · rw [Option.some.injEq] at h
    rw [← h]
    rfl
  · exact absurd h (by simp only [reduceCtorEq, not_false_eq_true])

theorem asBytes_ofList (cs : List Char) :
    asBytes (String.ofList cs) = cs.flatMap String.utf8EncodeChar := by
  simp only [asBytes, String.toByteArray_ofList, List.utf8Encode, List.data_toByteArray]

/-- The zero byte only ever encodes the NUL character: every byte of a longer
    encoding has its top bit set. -/
theorem zero_mem_utf8EncodeChar_iff (c : Char) :
    (0 : UInt8) ∈ String.utf8EncodeChar c ↔ c = '\x00' := by
  have hne : ∀ n : Nat, 128 ≤ n → n < 256 → (0 : UInt8) ≠ UInt8.ofNat n := by
    intro n hlo hhi hc
    have := congrArg UInt8.toNat hc
    simp only [UInt8.toNat_ofNat', UInt8.toNat_zero] at this
    omega
  have hc0 : c = '\x00' ↔ c.val.toNat = 0 := by
    rw [← Char.toNat_inj]
    exact Iff.rfl
  rw [hc0]
  fun_cases String.utf8EncodeChar c with
  | case1 v hv =>
      simp only [List.mem_singleton, ← UInt8.toNat_inj, UInt8.toNat_ofNat', UInt8.toNat_zero]
      omega
  | case2 v hv1 hv2 =>
      have hv : v ≠ 0 := by omega
      simp only [List.mem_cons, List.not_mem_nil, or_false, show c.val.toNat = v from rfl, hv,
        iff_false, not_or]
      exact ⟨hne _ (by omega) (by omega), hne _ (by omega) (by omega)⟩
  | case3 v hv1 hv2 hv3 =>
      have hv : v ≠ 0 := by omega
      simp only [List.mem_cons, List.not_mem_nil, or_false, show c.val.toNat = v from rfl, hv,
        iff_false, not_or]
      exact ⟨hne _ (by omega) (by omega), hne _ (by omega) (by omega),
        hne _ (by omega) (by omega)⟩
  | case4 v hv1 hv2 hv3 =>
      have hv : v ≠ 0 := by omega
      simp only [List.mem_cons, List.not_mem_nil, or_false, show c.val.toNat = v from rfl, hv,
        iff_false, not_or]
      exact ⟨hne _ (by omega) (by omega), hne _ (by omega) (by omega),
        hne _ (by omega) (by omega), hne _ (by omega) (by omega)⟩

/-- A string's encoding holds a zero byte exactly when the string holds the
    NUL character. -/
theorem zero_mem_asBytes_iff (s : String) : (0 : UInt8) ∈ asBytes s ↔ '\x00' ∈ s.toList := by
  have hs : asBytes s = s.toList.flatMap String.utf8EncodeChar := by
    rw [← asBytes_ofList, String.ofList_toList]
  rw [hs, List.mem_flatMap]
  constructor
  · intro h
    rcases h with ⟨c, hc, h0⟩
    rwa [(zero_mem_utf8EncodeChar_iff c).mp h0] at hc
  · intro h
    exact ⟨'\x00', h, (zero_mem_utf8EncodeChar_iff '\x00').mpr rfl⟩

/-! ### Fields terminated by a zero byte -/

/-- The bytes before and after the first zero byte, if there is one. -/
def splitAtNul (bs : List UInt8) : Option (List UInt8 × List UInt8) :=
  match bs.findIdx? (fun b => b == 0) with
  | none => none
  | some nullPos => some (bs.take nullPos, bs.drop (nullPos + 1))

theorem findIdx?_nul_eq_none {bs : List UInt8} (h : (0 : UInt8) ∉ bs) :
    bs.findIdx? (fun b => b == 0) = none := by
  rw [List.findIdx?_eq_none_iff]
  intro b hb
  simp only [beq_eq_false_iff_ne]
  rintro rfl
  exact h hb

theorem splitAtNul_append (xs ys : List UInt8) (h : (0 : UInt8) ∉ xs) :
    splitAtNul (xs ++ 0 :: ys) = some (xs, ys) := by
  have hidx : (xs ++ 0 :: ys).findIdx? (fun b => b == 0) = some xs.length := by
    simp only [List.findIdx?_append, findIdx?_nul_eq_none h, List.findIdx?_cons, beq_self_eq_true,
      if_true, Option.map_some, Option.none_or, Nat.zero_add]
  simp only [splitAtNul, hidx, List.take_left', List.drop_append, Nat.add_sub_cancel_left]
  simp only [List.drop_of_length_le (Nat.le_succ xs.length), List.nil_append, List.drop_succ_cons,
    List.drop_zero]

theorem splitAtNul_eq_none {bs : List UInt8} (h : (0 : UInt8) ∉ bs) : splitAtNul bs = none := by
  simp only [splitAtNul, findIdx?_nul_eq_none h]

theorem splitAtNul_eq_some_iff {bs xs ys : List UInt8} :
    splitAtNul bs = some (xs, ys) ↔ bs = xs ++ 0 :: ys ∧ (0 : UInt8) ∉ xs := by
  constructor
  · intro h
    by_cases h0 : (0 : UInt8) ∈ bs
    · -- The input has a zero byte: cut it at the first one and compare.
      obtain ⟨us, vs, rfl, hus⟩ := List.eq_append_cons_of_mem h0
      rw [splitAtNul_append us vs hus, Option.some.injEq, Prod.mk.injEq] at h
      rw [← h.1, ← h.2]
      exact ⟨rfl, hus⟩
    · rw [splitAtNul_eq_none h0] at h
      exact absurd h (by simp only [reduceCtorEq, not_false_eq_true])
  · intro h
    rcases h with ⟨rfl, hxs⟩
    exact splitAtNul_append xs ys hxs

/-- The bytes of a string before its first zero byte are a string again, so a
    reader of a terminated field sees a shorter name rather than an error. -/
theorem exists_name_before_nul (s : String) (h : (0 : UInt8) ∈ asBytes s) :
    ∃ (name : String) (post : List UInt8),
      asBytes s = asBytes name ++ 0 :: post ∧ (0 : UInt8) ∉ asBytes name := by
  -- Cut the characters at the first NUL: only that character encodes a zero.
  rcases List.eq_append_cons_of_mem ((zero_mem_asBytes_iff s).mp h) with ⟨us, vs, hs, hus⟩
  refine ⟨String.ofList us, vs.flatMap String.utf8EncodeChar, ?_, ?_⟩
  · have hsplit : asBytes s = (us ++ '\x00' :: vs).flatMap String.utf8EncodeChar := by
      rw [← hs, ← asBytes_ofList, String.ofList_toList]
    have hnul : String.utf8EncodeChar '\x00' = [0] := by decide
    rw [hsplit, asBytes_ofList, List.flatMap_append, List.flatMap_cons, hnul, List.singleton_append]
  · rw [zero_mem_asBytes_iff, String.toList_ofList]
    exact hus

end Bytes

end LcmBridge
