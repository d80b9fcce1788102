import LcmBridge.Library.Checked
import LcmBridge.Library.Text
import LcmBridge.Core.Mapping

/-!
# LCM URLs

The parser of the URLs that name a multicast group,
`udpm://GROUP:PORT?ttl=N&recv_buf_size=M`.

The parser is made of functions of the standard library, which come first:
trimming and splitting of strings, and the readers of numbers and addresses
with the texts of their errors. A number may have a plus sign and leading
zeros. An octet of an address may not.

`parse` itself stops at the first error. A parameter it does not know, or one
without an `=`, is skipped. The message of an error about the URL as a whole
quotes the URL as trimmed.

## Main definitions

* `trim`, `splitOnce`, `rsplitOnce`, `split`: Taking strings apart.
* `ParseIntError`, `parseUnsigned`: Reading unsigned numbers.
* `Ipv4Addr`, `parseIpv4`: Reading IPv4 addresses.
* `LcmUrl`: What a URL says.
* `parseAddress`, `parseParam`, `LcmUrl.parse`: The parser.

## Theorems

* `trim_eq`, `split_intercalate`: Trimming undoes padding, splitting joining.
* `splitOnce_eq_some_iff`, `rsplitOnce_eq_some_iff`: What splitting finds.
-/

namespace LcmBridge

/-! ### Strings -/

/-- The characters that Unicode calls white space. -/
def isWhitespace (c : Char) : Bool :=
  let n := c.toNat
  n == 0x20 || (0x9 ≤ n && n ≤ 0xD) || n == 0x85 || n == 0xA0 || n == 0x1680 ||
    (0x2000 ≤ n && n ≤ 0x200A) || n == 0x2028 || n == 0x2029 || n == 0x202F || n == 0x205F ||
    n == 0x3000

/-- The string without the white space at its ends. -/
def trim (s : String) : String := String.ofList (Text.trim isWhitespace s.toList)

/-- The parts of a string before and after the first separator. -/
def splitOnce (s : String) (sep : Char) : Option (String × String) :=
  (Text.splitOnce sep s.toList).map (fun parts => (String.ofList parts.1, String.ofList parts.2))

/-- The parts of a string before and after the last separator. -/
def rsplitOnce (s : String) (sep : Char) : Option (String × String) :=
  (Text.rsplitOnce sep s.toList).map (fun parts => (String.ofList parts.1, String.ofList parts.2))

/-- The parts of a string between its separators. -/
def split (s : String) (sep : Char) : List String := (s.toList.splitOn sep).map String.ofList

theorem trim_eq {ws s ws' : String} (hws : ∀ c ∈ ws.toList, isWhitespace c = true)
    (hs : ∀ c ∈ s.toList, isWhitespace c = false) (hws' : ∀ c ∈ ws'.toList, isWhitespace c = true)
    (hne : s.toList ≠ []) : trim (ws ++ s ++ ws') = s := by
  unfold trim
  rw [String.toList_append, String.toList_append, Text.trim_append hws hs hws' hne,
    String.ofList_toList]

/-- Splitting is done on characters, and the parts are put together again. -/
theorem split_eq_some_iff {s a b : String} {sep : Char} {parts : Option (List Char × List Char)}
    {P : List Char → List Char → Prop}
    (hparts : ∀ xs ys, parts = some (xs, ys) ↔ s.toList = xs ++ sep :: ys ∧ P xs ys) :
    parts.map (fun parts => (String.ofList parts.1, String.ofList parts.2)) = some (a, b) ↔
      s = a ++ String.singleton sep ++ b ∧ P a.toList b.toList := by
  have hjoin : s = a ++ String.singleton sep ++ b ↔ s.toList = a.toList ++ sep :: b.toList := by
    rw [← String.toList_inj, String.toList_append, String.toList_append, String.toList_singleton,
      List.append_assoc, List.singleton_append]
  rw [Option.map_eq_some_iff, hjoin]
  constructor
  · intro h
    rcases h with ⟨⟨xs, ys⟩, hsome, heq⟩
    rw [Prod.mk.injEq] at heq
    rw [← heq.1, ← heq.2, String.toList_ofList, String.toList_ofList]
    exact (hparts xs ys).mp hsome
  · intro h
    exact ⟨(a.toList, b.toList), (hparts _ _).mpr h, by
      simp only [String.ofList_toList]⟩

theorem splitOnce_eq_some_iff {s a b : String} {sep : Char} :
    splitOnce s sep = some (a, b) ↔ s = a ++ String.singleton sep ++ b ∧ sep ∉ a.toList :=
  split_eq_some_iff (P := fun xs _ => sep ∉ xs) (fun _ _ => Text.splitOnce_eq_some_iff)

theorem rsplitOnce_eq_some_iff {s a b : String} {sep : Char} :
    rsplitOnce s sep = some (a, b) ↔ s = a ++ String.singleton sep ++ b ∧ sep ∉ b.toList :=
  split_eq_some_iff (P := fun _ ys => sep ∉ ys) (fun _ _ => Text.rsplitOnce_eq_some_iff)

-- Joining no strings gives the same as joining the empty one.
theorem split_intercalate {strs : List String} {sep : Char} (h : ∀ s ∈ strs, sep ∉ s.toList) :
    split ((String.singleton sep).intercalate strs) sep = if strs = [] then [""] else strs := by
  unfold split
  rw [String.toList_intercalate, String.toList_singleton]
  by_cases hnil : strs = []
  · rw [if_pos hnil, hnil]
    rfl
  · rw [if_neg hnil, List.splitOn_intercalate]
    · rw [List.map_map]
      exact List.map_id'' (fun s => String.ofList_toList) strs
    · intro l hl
      rcases List.mem_map.mp hl with ⟨s, hs, rfl⟩
      exact h s hs
    · intro hmap
      exact hnil (List.map_eq_nil_iff.mp hmap)

/-! ### Numbers -/

/-- Why a string is not a number. -/
inductive ParseIntError where
  | empty
  | invalidDigit
  | posOverflow
  deriving DecidableEq, Repr

def ParseIntError.text : ParseIntError → String
  | .empty => "cannot parse integer from empty string"
  | .invalidDigit => "invalid digit found in string"
  | .posOverflow => "number too large to fit in target type"

/-- Read digits from the left, as long as the number stays below the bound. -/
def parseDigits (bound : Nat) : Fin bound → List Char → Except ParseIntError (Fin bound)
  | n, [] => .ok n
  | n, c :: cs =>
      if c.isDigit then
        if h : n * 10 + (c.toNat - 48) < bound then parseDigits bound ⟨_, h⟩ cs
        else .error .posOverflow
      else .error .invalidDigit

/-- Read an unsigned number below the bound, with or without a plus sign. -/
def parseUnsigned (bound : Nat) (hpos : 0 < bound) (s : String) :
    Except ParseIntError (Fin bound) :=
  let zero : Fin bound := ⟨0, hpos⟩
  match s.toList with
  | [] => .error .empty
  | ['+'] => .error .invalidDigit
  | '+' :: digits => parseDigits bound zero digits
  | digits => parseDigits bound zero digits

def parseU16 (s : String) : Except ParseIntError UInt16 :=
  (parseUnsigned UInt16.size (by decide) s).map UInt16.ofFin

def parseU32 (s : String) : Except ParseIntError UInt32 :=
  (parseUnsigned UInt32.size (by decide) s).map UInt32.ofFin

def parseUsize (s : String) : Except ParseIntError (Fin Checked.usizeBound) :=
  parseUnsigned Checked.usizeBound (by decide) s

/-! ### Addresses -/

/-- An IPv4 address, by its octets. -/
structure Ipv4Addr where
  a : UInt8
  b : UInt8
  c : UInt8
  d : UInt8
  deriving DecidableEq, Repr

/-- Read an octet: one to three digits, without leading zeros, up to 255. -/
def parseOctet (s : List Char) : Option UInt8 :=
  if s.length = 0 ∨ 3 < s.length ∨ (s.head? = some '0' ∧ 1 < s.length) then none
  else
    match parseDigits 256 0 s with
    | .ok n => some (UInt8.ofFin n)
    | .error _ => none

/-- Read an address: four octets with dots between them. -/
def parseIpv4 (s : String) : Except String Ipv4Addr :=
  match (s.toList.splitOn '.').map parseOctet with
  | [some a, some b, some c, some d] => .ok ⟨a, b, c, d⟩
  | _ => .error "invalid IPv4 address syntax"

/-! ### The parser -/

/-- The components of an LCM multicast URL. -/
structure LcmUrl where
  multicastGroup : Ipv4Addr
  port : UInt16
  ttl : UInt32
  recvBufSize : Option (Fin Checked.usizeBound)
  deriving DecidableEq, Repr

def LcmUrl.default : LcmUrl where
  multicastGroup := ⟨239, 255, 76, 67⟩
  port := 7667
  ttl := 0
  recvBufSize := none

/-- Parse host and port. The URL is for the error. -/
def parseAddress (url hostPort : String) : Except String (Ipv4Addr × UInt16) :=
  match rsplitOnce hostPort ':' with
  | none => .error ("LCM URL must contain GROUP:PORT: " ++ url)
  | some (groupStr, portStr) => do
      let multicastGroup ← (parseIpv4 groupStr).mapError (fun e =>
        "Invalid multicast group '" ++ groupStr ++ "': " ++ e)
      let port ← (parseU16 portStr).mapError (fun e =>
        "Invalid port '" ++ portStr ++ "': " ++ e.text)
      return (multicastGroup, port)

/-- Parse one query parameter, after the others before it have given the TTL
    and the size of the receive buffer. -/
def parseParam (settings : UInt32 × Option (Fin Checked.usizeBound)) (param : String) :
    Except String (UInt32 × Option (Fin Checked.usizeBound)) :=
  match splitOnce param '=' with
  | none => .ok settings
  | some (key, value) =>
      if key = "ttl" then do
        let ttl ← (parseU32 value).mapError (fun e => "Invalid ttl '" ++ value ++ "': " ++ e.text)
        return (ttl, settings.2)
      else if key = "recv_buf_size" then do
        let size ← (parseUsize value).mapError (fun e =>
          "Invalid recv_buf_size '" ++ value ++ "': " ++ e.text)
        return (settings.1, some size)
      else .ok settings

/-- Parse an LCM URL string. -/
def LcmUrl.parse (url : String) : Except String LcmUrl :=
  let url := trim url
  match stripPrefix url "udpm://" with
  | none => .error ("LCM URL must start with 'udpm://': " ++ url)
  | some rest =>
      -- Split off the query string.
      let (hostPort, query) :=
        match splitOnce rest '?' with
        | some (hp, q) => (hp, some q)
        | none => (rest, none)
      do
        let (multicastGroup, port) ← parseAddress url hostPort
        let (ttl, recvBufSize) ←
          match query with
          | some query => (split query '&').foldlM parseParam (0, none)
          | none => .ok (0, none)
        return { multicastGroup, port, ttl, recvBufSize }

end LcmBridge
