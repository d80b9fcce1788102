import LcmBridge.Library.Decimal
import LcmBridge.Theory.Urls

/-!
# The Text of a URL

Which strings are URLs, and what they say.

A number is digits, after a plus sign or not, and zeros may stand in front of
it (`IsNumber`). An address is stricter: each octet is written in the one way
that a number is printed, so that an address has exactly one text
(`parseIpv4_eq_ok_iff`). With these two, what the parser accepts can be said of
the text alone, for every string (`parse_iff`): the white space at the ends is
dropped, the host and the port are before the first question mark, or are all
there is, and the parameters are what follows it.

In the other direction there is a URL of the documented form for every group,
port, TTL and buffer size, and the parser gives back these
(`parse_urlText`).

## Main definitions

* `IsNumber`: A text that is read as a number.
* `Ipv4Addr.text`: The text of an address.
* `HasParts`, `Says`: The parts of a URL, and what they say.
* `urlText`: The URL of the documented form.

## Theorems

* `parseUnsigned_eq_ok_iff`: Which strings are numbers.
* `parseIpv4_eq_ok_iff`: Which strings are addresses.
* `describes_iff_text`: What the parts of a URL say, in terms of their text.
* `parse_iff_of_parts`, `parse_iff`: Which strings are URLs.
* `parse_urlText`: Every URL has a text.
-/

namespace LcmBridge

open Checked Decimal Text

/-! ### Numbers -/

/-- The text is digits that stand for the number, after a plus sign or not. -/
def IsNumber (s : String) (n : Nat) : Prop :=
  ∃ cs, IsNumeral cs n ∧ (s.toList = cs ∨ s.toList = '+' :: cs)

section Numbers

variable {bound : Nat} {cs : List Char} {s : String}

-- Induction on the digits. What is read so far never exceeds the number, so it
-- stays below the bound if the number does.
theorem parseDigits_eq_ok_iff {m r : Fin bound} :
    parseDigits bound m cs = .ok r ↔
      (∀ c ∈ cs, c.isDigit = true) ∧ Nat.ofDigitChars 10 cs m = r := by
  induction cs generalizing m with
  | nil =>
      rw [parseDigits, Except.ok.injEq, Nat.ofDigitChars_nil, Fin.ext_iff]
      exact ⟨fun h => ⟨fun c hc => absurd hc List.not_mem_nil, h⟩, fun h => h.2⟩
  | cons c cs ih =>
      rw [parseDigits, List.forall_mem_cons, Nat.ofDigitChars_cons, Nat.mul_comm 10]
      by_cases hdigit : c.isDigit = true
      · rw [if_pos hdigit]
        by_cases hlt : m * 10 + (c.toNat - 48) < bound
        · rw [dif_pos hlt, ih]
          exact ⟨fun h => ⟨⟨hdigit, h.1⟩, h.2⟩, fun h => ⟨h.1.2, h.2⟩⟩
        · rw [dif_neg hlt]
          constructor
          · intro h
            exact absurd h (by simp only [reduceCtorEq, not_false_eq_true])
          · intro h
            have hle := le_ofDigitChars cs (m * 10 + (c.toNat - '0'.toNat))
            rw [h.2] at hle
            exact absurd (Nat.lt_of_le_of_lt hle r.isLt) hlt
      · rw [if_neg hdigit]
        constructor
        · intro h
          exact absurd h (by simp only [reduceCtorEq, not_false_eq_true])
        · intro h
          exact absurd h.1.1 hdigit

/-- From zero on, what is read is a numeral. -/
theorem parseDigits_zero_iff {hpos : 0 < bound} {r : Fin bound} (hne : cs ≠ []) :
    parseDigits bound ⟨0, hpos⟩ cs = .ok r ↔ IsNumeral cs r := by
  rw [parseDigits_eq_ok_iff]
  exact ⟨fun h => ⟨hne, h.1, h.2⟩, fun h => ⟨h.digits, h.value⟩⟩

theorem plus_notMem {n : Nat} (h : IsNumeral cs n) : '+' ∉ cs :=
  fun hmem => absurd (h.digits '+' hmem) (by decide)

/-- A string is read as a number exactly when it is one below the bound. -/
theorem parseUnsigned_eq_ok_iff {hpos : 0 < bound} {r : Fin bound} :
    parseUnsigned bound hpos s = .ok r ↔ IsNumber s r := by
  unfold parseUnsigned IsNumber
  cases hs : s.toList with
  | nil =>
      simp only [reduceCtorEq, or_false, false_iff, not_exists, not_and]
      exact fun cs h hnil => h.ne_nil hnil.symm
  | cons c cs =>
      by_cases hplus : c = '+'
      · rw [hplus]
        have hiff : (∃ ds, IsNumeral ds r ∧ ('+' :: cs = ds ∨ '+' :: cs = '+' :: ds)) ↔
            IsNumeral cs r := by
          constructor
          · intro h
            rcases h with ⟨ds, hds, rfl | heq⟩
            · exact absurd List.mem_cons_self (plus_notMem hds)
            · rwa [(List.cons.inj heq).2]
          · intro h
            exact ⟨cs, h, Or.inr rfl⟩
        rw [hiff]
        cases cs with
        | nil =>
            simp only [reduceCtorEq, false_iff]
            exact fun h => h.ne_nil rfl
        | cons d ds => exact parseDigits_zero_iff (List.cons_ne_nil d ds)
      · have hiff : (∃ ds, IsNumeral ds r ∧ (c :: cs = ds ∨ c :: cs = '+' :: ds)) ↔
            IsNumeral (c :: cs) r := by
          constructor
          · intro h
            rcases h with ⟨ds, hds, rfl | heq⟩
            · exact hds
            · exact absurd (List.cons.inj heq).1 hplus
          · intro h
            exact ⟨c :: cs, h, Or.inl rfl⟩
        rw [hiff]
        split
        · next heq => exact absurd heq (List.cons_ne_nil c cs)
        · next heq => exact absurd (List.cons.inj heq).1 hplus
        · next heq => exact absurd (List.cons.inj heq).1 hplus
        · exact parseDigits_zero_iff (List.cons_ne_nil c cs)

/-- A number as it is printed. -/
theorem isNumber_repr (n : Nat) : IsNumber n.repr n :=
  ⟨Nat.toDigits 10 n, isNumeral_toDigits n, Or.inl Nat.toList_repr⟩

theorem parseU16_eq_ok_iff {n : UInt16} : parseU16 s = .ok n ↔ IsNumber s n.toNat := by
  rw [parseU16, map_eq_ok_iff]
  constructor
  · intro h
    rcases h with ⟨r, hr, rfl⟩
    exact parseUnsigned_eq_ok_iff.mp hr
  · intro h
    exact ⟨n.toFin, parseUnsigned_eq_ok_iff.mpr h, rfl⟩

theorem parseU32_eq_ok_iff {n : UInt32} : parseU32 s = .ok n ↔ IsNumber s n.toNat := by
  rw [parseU32, map_eq_ok_iff]
  constructor
  · intro h
    rcases h with ⟨r, hr, rfl⟩
    exact parseUnsigned_eq_ok_iff.mp hr
  · intro h
    exact ⟨n.toFin, parseUnsigned_eq_ok_iff.mpr h, rfl⟩

end Numbers

/-! ### Addresses -/

/-- The text of an address. -/
def Ipv4Addr.text (addr : Ipv4Addr) : String :=
  ".".intercalate [addr.a.toNat.repr, addr.b.toNat.repr, addr.c.toNat.repr, addr.d.toNat.repr]

/-- An octet is read exactly when it is as it is printed. -/
theorem parseOctet_eq_some_iff {cs : List Char} {n : UInt8} :
    parseOctet cs = some n ↔ cs = Nat.toDigits 10 n.toNat := by
  unfold parseOctet
  constructor
  · intro h
    split at h
    · exact absurd h (by simp only [reduceCtorEq, not_false_eq_true])
    · next hform =>
        simp only [not_or, not_and] at hform
        split at h
        · next r hr =>
            have hnumeral : IsNumeral cs r :=
              (parseDigits_zero_iff (fun hnil => hform.1 (by rw [hnil]; rfl))).mp hr
            rw [← Option.some.inj h]
            refine hnumeral.eq_toDigits (fun hhead => ?_)
            have hlength := hform.2.2 hhead
            omega
        · exact absurd h (by simp only [reduceCtorEq, not_false_eq_true])
  · intro h
    have hnumeral := isNumeral_toDigits n.toNat
    rw [← h] at hnumeral
    have hlength : cs.length ≤ 3 := by
      have hlt := n.toNat_lt
      rw [h, Nat.length_toDigits_le_iff (by decide) (by decide)]
      omega
    have hform : ¬ (cs.length = 0 ∨ 3 < cs.length ∨ (cs.head? = some '0' ∧ 1 < cs.length)) := by
      simp only [not_or, not_and]
      refine ⟨fun hzero => hnumeral.ne_nil (List.eq_nil_of_length_eq_zero hzero), by omega,
        fun hhead => ?_⟩
      rw [h] at hhead ⊢
      rw [toDigits_head _ hhead, Nat.toDigits_zero]
      decide
    have hread : parseDigits 256 0 cs = .ok n.toFin :=
      (parseDigits_zero_iff hnumeral.ne_nil).mpr hnumeral
    rw [if_neg hform, hread]
    rfl

theorem text_toList (addr : Ipv4Addr) :
    addr.text.toList = ['.'].intercalate [Nat.toDigits 10 addr.a.toNat,
      Nat.toDigits 10 addr.b.toNat, Nat.toDigits 10 addr.c.toNat, Nat.toDigits 10 addr.d.toNat] := by
  simp only [Ipv4Addr.text, String.toList_intercalate, List.map_cons, List.map_nil,
    Nat.toList_repr]
  rfl

/-- A digit is none of the separators. -/
theorem notMem_toDigits {c : Char} (hc : c.isDigit = false) (n : Nat) :
    c ∉ Nat.toDigits 10 n := by
  intro hmem
  rw [(isNumeral_toDigits n).digits c hmem] at hc
  exact Bool.noConfusion hc

/-- An address is read exactly when it is as it is printed. -/
theorem parseIpv4_eq_ok_iff {s : String} {addr : Ipv4Addr} :
    parseIpv4 s = .ok addr ↔ s = addr.text := by
  unfold parseIpv4
  constructor
  · intro h
    split at h
    · next a b c d heq =>
        have hjoin : ['.'].intercalate (s.toList.splitOn '.') = s.toList :=
          List.intercalate_splitOn '.'
        rw [← Except.ok.inj h, ← String.toList_inj, text_toList, ← hjoin]
        simp only [List.map_eq_cons_iff, List.map_eq_nil_iff, parseOctet_eq_some_iff] at heq
        rcases heq with ⟨_, _, hsplit, rfl, _, _, rfl, rfl, _, _, rfl, rfl, _, _, rfl, rfl, rfl⟩
        rw [hsplit]
    · exact absurd h (by simp only [reduceCtorEq, not_false_eq_true])
  · intro h
    have hsplit : s.toList.splitOn '.' = [Nat.toDigits 10 addr.a.toNat,
        Nat.toDigits 10 addr.b.toNat, Nat.toDigits 10 addr.c.toNat,
        Nat.toDigits 10 addr.d.toNat] := by
      rw [h, text_toList, List.splitOn_intercalate]
      · simp only [List.forall_mem_cons, List.not_mem_nil, false_imp_iff, implies_true, and_true]
        exact ⟨notMem_toDigits rfl _, notMem_toDigits rfl _, notMem_toDigits rfl _,
          notMem_toDigits rfl _⟩
      · exact List.cons_ne_nil _ _
    simp only [hsplit, List.map_cons, List.map_nil, parseOctet_eq_some_iff.mpr rfl]

/-! ### The parts -/

/-- What the authority and the parameters of a URL say, in terms of their text. -/
structure Says (hp : String) (params : List String) (url : LcmUrl) : Prop where
  authority : ∃ port, hp = url.multicastGroup.text ++ ":" ++ port ∧ IsNumber port url.port.toNat
  ttl_numbers : ∀ v ∈ values "ttl" params, ∃ n < 4294967296, IsNumber v n
  ttl : (values "ttl" params).getLast?.elim (url.ttl = 0) (fun v => IsNumber v url.ttl.toNat)
  size_numbers : ∀ v ∈ values "recv_buf_size" params, ∃ n < Checked.usizeBound, IsNumber v n
  recvBufSize : (values "recv_buf_size" params).getLast?.elim (url.recvBufSize = none)
    (fun v => ∃ n, url.recvBufSize = some n ∧ IsNumber v n)

section Parts

variable {hp : String} {params : List String} {url : LcmUrl} {s : String} {n : Nat}

theorem colon_notMem (h : IsNumber s n) : ':' ∉ s.toList := by
  rcases h with ⟨cs, hcs, hs | hs⟩
  · intro hmem
    rw [hs] at hmem
    exact absurd (hcs.digits _ hmem) (by decide)
  · intro hmem
    rw [hs] at hmem
    rcases List.mem_cons.mp hmem with heq | hmem
    · exact absurd heq (by decide)
    · exact absurd (hcs.digits _ hmem) (by decide)

theorem exists_parseU32_iff : (∃ u, parseU32 s = .ok u) ↔ ∃ n < 4294967296, IsNumber s n := by
  simp only [parseU32_eq_ok_iff]
  constructor
  · intro h
    rcases h with ⟨u, hu⟩
    exact ⟨u.toNat, u.toNat_lt, hu⟩
  · intro h
    rcases h with ⟨n, hn, hs⟩
    exact ⟨UInt32.ofNat n, by rwa [UInt32.toNat_ofNat_of_lt' hn]⟩

theorem parseUsize_eq_ok_iff {size : Fin Checked.usizeBound} :
    parseUsize s = .ok size ↔ IsNumber s size := parseUnsigned_eq_ok_iff

theorem exists_parseUsize_iff :
    (∃ u, (parseUsize s).map some = .ok u) ↔ ∃ n < Checked.usizeBound, IsNumber s n := by
  simp only [map_eq_ok_iff, parseUsize_eq_ok_iff]
  constructor
  · intro h
    rcases h with ⟨u, size, hsize, rfl⟩
    exact ⟨size, size.isLt, hsize⟩
  · intro h
    rcases h with ⟨n, hn, hs⟩
    exact ⟨some ⟨n, hn⟩, ⟨n, hn⟩, hs, rfl⟩

theorem describes_iff_text : Describes hp params url ↔ Says hp params url := by
  have hauthority : (∃ group port, hp = group ++ ":" ++ port ∧ ':' ∉ port.toList ∧
        parseIpv4 group = .ok url.multicastGroup ∧ parseU16 port = .ok url.port) ↔
      ∃ port, hp = url.multicastGroup.text ++ ":" ++ port ∧ IsNumber port url.port.toNat := by
    simp only [parseIpv4_eq_ok_iff, parseU16_eq_ok_iff]
    constructor
    · intro h
      rcases h with ⟨group, port, hhp, _, rfl, hport⟩
      exact ⟨port, hhp, hport⟩
    · intro h
      rcases h with ⟨port, hhp, hport⟩
      exact ⟨_, port, hhp, colon_notMem hport, rfl, hport⟩
  have httl : ∀ v, parseU32 v = .ok url.ttl ↔ IsNumber v url.ttl.toNat :=
    fun v => parseU32_eq_ok_iff
  have hsize : ∀ v, (parseUsize v).map some = .ok url.recvBufSize ↔
      ∃ n, url.recvBufSize = some n ∧ IsNumber v n := by
    intro v
    simp only [map_eq_ok_iff, parseUsize_eq_ok_iff]
    exact exists_congr (fun n => ⟨fun h => ⟨h.2.symm, h.1⟩, fun h => ⟨h.2, h.1.symm⟩⟩)
  constructor
  · intro h
    rcases h with ⟨hhp, ⟨httls, hlast⟩, hsizes, hlast'⟩
    simp only [httl, exists_parseU32_iff] at httls hlast
    simp only [hsize, exists_parseUsize_iff] at hsizes hlast'
    exact ⟨hauthority.mp hhp, httls, hlast, hsizes, hlast'⟩
  · intro h
    refine ⟨hauthority.mpr h.authority, ⟨?_, ?_⟩, ?_, ?_⟩
    · simp only [exists_parseU32_iff]
      exact h.ttl_numbers
    · simp only [httl]
      exact h.ttl
    · simp only [exists_parseUsize_iff]
      exact h.size_numbers
    · simp only [hsize]
      exact h.recvBufSize

end Parts

/-! ### The whole text -/

/-- The parts of a URL: the authority, and the parameters if there are any. -/
def HasParts (s hp : String) (params : List String) : Prop :=
  '?' ∉ hp.toList ∧ (s = "udpm://" ++ hp ∧ params = [] ∨
    ∃ query, s = "udpm://" ++ hp ++ "?" ++ query ∧ params = split query '&')

theorem notMem_of_splitOnce {s : String} {sep : Char} (h : splitOnce s sep = none) :
    sep ∉ s.toList := by
  intro hmem
  rcases List.eq_append_cons_of_mem hmem with ⟨xs, ys, heq, hxs⟩
  rw [splitOnce, Text.splitOnce_eq_some_iff.mpr ⟨heq, hxs⟩] at h
  exact absurd h (by simp only [Option.map_some, reduceCtorEq, not_false_eq_true])

section Parse

variable {s hp : String} {params : List String} {url : LcmUrl}

/-- A string with parts is parsed by parsing the parts. -/
theorem parse_of_parts (h : HasParts (trim s) hp params) :
    LcmUrl.parse s = (do
      let (multicastGroup, port) ← parseAddress (trim s) hp
      let (ttl, recvBufSize) ← params.foldlM parseParam (0, none)
      return { multicastGroup, port, ttl, recvBufSize }) := by
  rcases h with ⟨hquery, ⟨htext, rfl⟩ | ⟨query, htext, rfl⟩⟩
  · have hstrip : stripPrefix (trim s) "udpm://" = some hp := stripPrefix_eq_some_iff.mpr htext
    have hnone : splitOnce hp '?' = none := by
      rw [splitOnce, Text.splitOnce_eq_none hquery, Option.map_none]
    unfold LcmUrl.parse
    simp only [hstrip, hnone]
    rfl
  · have hstrip : stripPrefix (trim s) "udpm://" = some (hp ++ "?" ++ query) := by
      rw [stripPrefix_eq_some_iff, htext]
      simp only [String.append_assoc]
    have hsome : splitOnce (hp ++ "?" ++ query) '?' = some (hp, query) :=
      splitOnce_eq_some_iff.mpr ⟨rfl, hquery⟩
    unfold LcmUrl.parse
    simp only [hstrip, hsome]

/-- A string that is parsed has parts. -/
theorem parts_of_parse (h : LcmUrl.parse s = .ok url) : ∃ hp params, HasParts (trim s) hp params := by
  unfold LcmUrl.parse at h
  cases hstrip : stripPrefix (trim s) "udpm://" with
  | none => exact absurd h (by simp only [hstrip, reduceCtorEq, not_false_eq_true])
  | some rest =>
      have htext := stripPrefix_eq_some_iff.mp hstrip
      cases hquery : splitOnce rest '?' with
      | none => exact ⟨rest, [], notMem_of_splitOnce hquery, Or.inl ⟨htext, rfl⟩⟩
      | some parts =>
          obtain ⟨hp, query⟩ := parts
          rcases splitOnce_eq_some_iff.mp hquery with ⟨hrest, hmem⟩
          refine ⟨hp, split query '&', hmem, Or.inr ⟨query, ?_, rfl⟩⟩
          rw [htext, hrest]
          simp only [String.append_assoc]
          rfl

/-- A string with parts is a URL exactly when the parts say so. -/
theorem parse_iff_of_parts (h : HasParts (trim s) hp params) :
    LcmUrl.parse s = .ok url ↔ Says hp params url := by
  rw [parse_of_parts h, ← describes_iff_text]
  constructor
  · intro h
    rcases bind_eq_ok.mp h with ⟨⟨group, port⟩, haddress, h⟩
    rcases bind_eq_ok.mp h with ⟨⟨ttl, size⟩, hquery, h⟩
    rw [parseAddress_eq_ok_iff] at haddress
    rw [foldlM_parseParam_eq_ok_iff] at hquery
    simp only [pure, Except.pure, Except.ok.injEq] at h
    rw [← h]
    exact ⟨haddress, hquery.1, hquery.2⟩
  · intro h
    refine bind_eq_ok.mpr ⟨(url.multicastGroup, url.port), parseAddress_eq_ok_iff.mpr h.authority,
      bind_eq_ok.mpr ⟨(url.ttl, url.recvBufSize), ?_, rfl⟩⟩
    exact foldlM_parseParam_eq_ok_iff.mpr ⟨h.ttl, h.recvBufSize⟩

end Parse

/-- A string is a URL exactly when what is left without the white space at its
    ends has parts, and they say so. -/
theorem parse_iff (s : String) (url : LcmUrl) :
    LcmUrl.parse s = .ok url ↔ ∃ hp params, HasParts (trim s) hp params ∧ Says hp params url := by
  constructor
  · intro h
    rcases parts_of_parse h with ⟨hp, params, hhas⟩
    exact ⟨hp, params, hhas, (parse_iff_of_parts hhas).mp h⟩
  · intro h
    rcases h with ⟨hp, params, hhas, hsays⟩
    exact (parse_iff_of_parts hhas).mpr hsays

/-! ### The documented form -/

/-- The parameters of the documented form. The buffer size is given if there is
    one. -/
def urlParams (url : LcmUrl) : List String :=
  param "ttl" url.ttl.toNat.repr
    :: (url.recvBufSize.map (fun n => param "recv_buf_size" n.val.repr)).toList

/-- The URL of the documented form. -/
def urlText (url : LcmUrl) : String :=
  udpmUrl (url.multicastGroup.text ++ ":" ++ url.port.toNat.repr) (urlParams url)

/-- A character of an authority. -/
def IsPlain (c : Char) : Prop := c.isDigit = true ∨ c = '.' ∨ c = ':'

theorem not_space_of_digit {c : Char} (h : c.isDigit = true) : isWhitespace c = false := by
  rw [Char.isDigit_iff_toNat] at h
  have hzero : '0'.toNat = 48 := rfl
  have hnine : '9'.toNat = 57 := rfl
  simp only [isWhitespace, Bool.or_eq_false_iff, Bool.and_eq_false_iff, beq_eq_false_iff_ne,
    decide_eq_false_iff_not]
  omega

theorem unspaced_repr (n : Nat) : Unspaced n.repr := by
  intro c hc
  rw [Nat.toList_repr] at hc
  exact not_space_of_digit ((isNumeral_toDigits n).digits c hc)

theorem authority_plain (addr : Ipv4Addr) (port : Nat) :
    ∀ c ∈ (addr.text ++ ":" ++ port.repr).toList, IsPlain c := by
  have hdigits : ∀ n, ∀ c ∈ Nat.toDigits 10 n, IsPlain c :=
    fun n c hc => Or.inl ((isNumeral_toDigits n).digits c hc)
  intro c hc
  rw [String.toList_append, String.toList_append, text_toList, Nat.toList_repr] at hc
  simp only [List.intercalate, List.intersperse, List.flatten_cons, List.flatten_nil,
    List.append_nil, List.mem_append, List.mem_singleton, String.reduceToList] at hc
  have hdot : IsPlain '.' := Or.inr (Or.inl rfl)
  rcases hc with ((hc | rfl | hc | rfl | hc | rfl | hc) | rfl) | hc
  · exact hdigits _ c hc
  · exact hdot
  · exact hdigits _ c hc
  · exact hdot
  · exact hdigits _ c hc
  · exact hdot
  · exact hdigits _ c hc
  · exact Or.inr (Or.inr rfl)
  · exact hdigits _ c hc

theorem isAuthority_of_plain {hp : String} (h : ∀ c ∈ hp.toList, IsPlain c) : IsAuthority hp where
  no_query hmem := by
    rcases h _ hmem with hdigit | heq | heq
    · exact absurd hdigit (by decide)
    · exact absurd heq (by decide)
    · exact absurd heq (by decide)
  unspaced c hc := by
    rcases h c hc with hdigit | rfl | rfl
    · exact not_space_of_digit hdigit
    · rfl
    · rfl

theorem isParam_repr {key : String} (hkey : IsParam key) (n : Nat) : IsParam (param key n.repr) where
  no_sep := by
    rw [param, String.toList_append, String.toList_append, List.mem_append, List.mem_append,
      Nat.toList_repr]
    rintro ((hmem | hmem) | hmem)
    · exact hkey.no_sep hmem
    · exact absurd hmem (by decide)
    · exact notMem_toDigits rfl _ hmem
  unspaced := unspaced_append (unspaced_append hkey.unspaced (by decide)) (unspaced_repr n)

theorem valueOf_other {key key' value : String} (hkey : '=' ∉ key'.toList) (hne : key' ≠ key) :
    valueOf key (param key' value) = none := by
  have hsplit : splitOnce (param key' value) '=' = some (key', value) :=
    splitOnce_eq_some_iff.mpr ⟨rfl, hkey⟩
  refine valueOf_eq_none_of_paramKey (fun h => hne ?_)
  rw [paramKey, hsplit] at h
  exact Option.some.inj h

theorem ttl_values (url : LcmUrl) : values "ttl" (urlParams url) = [url.ttl.toNat.repr] := by
  have httl : valueOf "ttl" (param "ttl" url.ttl.toNat.repr) = some url.ttl.toNat.repr :=
    (valueOf_eq_some_iff ttl_plain).mpr rfl
  rw [values, urlParams, List.filterMap_cons_some httl]
  cases url.recvBufSize with
  | none => rfl
  | some n =>
      rw [Option.map_some, Option.toList_some, List.filterMap_cons_none
        (valueOf_other recvBufSize_plain (by decide)), List.filterMap_nil]

theorem size_values (url : LcmUrl) :
    values "recv_buf_size" (urlParams url)
      = (url.recvBufSize.map (fun n => n.val.repr)).toList := by
  rw [values, urlParams, List.filterMap_cons_none (valueOf_other ttl_plain (by decide))]
  cases url.recvBufSize with
  | none => rfl
  | some n =>
      rw [Option.map_some, Option.toList_some, List.filterMap_cons_some
        ((valueOf_eq_some_iff recvBufSize_plain).mpr rfl), List.filterMap_nil]
      rfl

/-- What the documented form says. -/
theorem says_urlText (url : LcmUrl) :
    Says (url.multicastGroup.text ++ ":" ++ url.port.toNat.repr) (urlParams url) url where
  authority := ⟨_, rfl, isNumber_repr _⟩
  ttl_numbers v hv := by
    rw [ttl_values, List.mem_singleton] at hv
    rw [hv]
    exact ⟨_, url.ttl.toNat_lt, isNumber_repr _⟩
  ttl := by
    rw [ttl_values]
    exact isNumber_repr _
  size_numbers v hv := by
    rw [size_values, Option.mem_toList, Option.map_eq_some_iff] at hv
    rcases hv with ⟨n, _, rfl⟩
    exact ⟨n, n.isLt, isNumber_repr _⟩
  recvBufSize := by
    rw [size_values]
    cases url.recvBufSize with
    | none => rfl
    | some n => exact ⟨n, rfl, isNumber_repr _⟩

/-- For every group, port, TTL and buffer size there is a URL of the documented
    form, and it is parsed to these. -/
theorem parse_urlText {ws ws' : String} (hws : Blank ws) (hws' : Blank ws') (url : LcmUrl) :
    LcmUrl.parse (ws ++ urlText url ++ ws') = .ok url := by
  have hauthority := isAuthority_of_plain
    (authority_plain url.multicastGroup url.port.toNat)
  have hsize : ∀ n : Fin Checked.usizeBound, IsParam (param "recv_buf_size" n.val.repr) :=
    fun n => isParam_repr (by decide) n.val
  refine (parse_eq_ok_iff hws hws' hauthority ?_).mpr (describes_iff_text.mpr ?_)
  · intro p hp
    rcases List.mem_cons.mp hp with rfl | hp
    · exact isParam_repr (by decide) _
    · rcases Option.map_eq_some_iff.mp (Option.mem_toList.mp hp) with ⟨n, _, rfl⟩
      exact hsize n
  · exact says_urlText url

theorem parse_urlText_large :
    LcmUrl.parse ("\t" ++ urlText ⟨⟨224, 0, 0, 251⟩, 65535, 4294967295, some ⟨2097152, by decide⟩⟩
      ++ " \n") = .ok ⟨⟨224, 0, 0, 251⟩, 65535, 4294967295, some ⟨2097152, by decide⟩⟩ :=
  parse_urlText (by decide) (by decide) _

end LcmBridge
