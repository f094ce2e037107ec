/-
# Addresses and route prefixes

Route grants name their prefix as text, `address/length`.  This file models the textual
parsers the program relies on (the standard library's `IpAddr` and `u8` parsers, and
`parse_cidr` of `config.rs` on top of them), so that a route grant is well formed here exactly
when the program accepts it.  `IpAddr.text` is the standard library's text form of an address.
-/
import Mathlib.Algebra.Order.Ring.Nat
import Mathlib.Data.List.Basic

namespace P2pVpn.Net

/-- An IP address, as the integer of its big-endian octets. -/
inductive IpAddr where
  | v4 (bits : BitVec 32)
  | v6 (bits : BitVec 128)
deriving DecidableEq, Repr

/-- The width of an address in bits. -/
def IpAddr.width : IpAddr → ℕ
  | .v4 _ => 32
  | .v6 _ => 128

/-- An address block; its length never exceeds the width of its address. -/
structure IpCidr where
  /-- The network address. -/
  address : IpAddr
  /-- The number of leading bits that identify the block. -/
  prefixLen : ℕ
  prefixLen_le : prefixLen ≤ address.width
deriving DecidableEq, Repr

/-- Keys, digests and overlay addresses are numbers of 32 bytes. -/
instance neZeroBytes32 : NeZero (2 ^ 256) := ⟨(Nat.two_pow_pos 256).ne'⟩

lemma ipv4Width_le : (32 : ℕ) ≤ 32 := le_rfl

lemma ipv6Width_le : (128 : ℕ) ≤ 128 := le_rfl

/-- The ways a route can be refused. -/
inductive RouteError where
  | invalidPrefix (prefixLen maxPrefix : ℕ)
  /-- Two peers, by their overlay addresses, claim overlapping blocks. -/
  | conflictingOwnership (existingOwner newOwner : Fin (2 ^ 256))
      (existingPrefix newPrefix : IpCidr)
deriving DecidableEq, Repr

/-- The ways the text of a route prefix can be refused. -/
inductive RoutePrefixError where
  | missingSlash
  | invalidAddress (address : String)
  | invalidPrefix (text : String)
  | invalidPrefixLength (error : RouteError)
deriving DecidableEq, Repr

/-! ## Reading an address -/

/-- The value of a digit in the given radix (at most 16). -/
def toDigit (radix : ℕ) (c : Char) : Option ℕ :=
  let value :=
    if '0' ≤ c ∧ c ≤ '9' then some (c.toNat - '0'.toNat)
    else if 'a' ≤ c ∧ c ≤ 'f' then some (c.toNat - 'a'.toNat + 10)
    else if 'A' ≤ c ∧ c ≤ 'F' then some (c.toNat - 'A'.toNat + 10)
    else none
  value.filter (· < radix)

/-- Read a run of digits: at most `maxDigits` of them, at least one, with a value of at most
`maxValue`, and without a leading zero unless that is allowed. -/
def readNumber (radix maxDigits maxValue : ℕ) (allowZeroPrefix : Bool) (input : List Char) :
    Option (ℕ × List Char) :=
  let digits := input.takeWhile fun c => (toDigit radix c).isSome
  let value := (digits.filterMap (toDigit radix)).foldl (fun acc d => acc * radix + d) 0
  if digits.length > maxDigits ∨ digits = [] then none
  else if ¬ allowZeroPrefix ∧ digits.head? = some '0' ∧ 1 < digits.length then none
  else if value > maxValue then none
  else some (value, input.drop digits.length)

/-- Consume the separator that stands before every item but the first. -/
def readSeparator (separator : Char) (first : Bool) (input : List Char) : Option (List Char) :=
  match first, input with
  | true, _ => some input
  | false, c :: rest => if c = separator then some rest else none
  | false, [] => none

/-- Four decimal octets separated by dots. -/
def readIpv4 (input : List Char) : Option (BitVec 32 × List Char) := do
  let (a, input) ← readNumber 10 3 255 false input
  let (b, input) ← readSeparator '.' false input >>= readNumber 10 3 255 false
  let (c, input) ← readSeparator '.' false input >>= readNumber 10 3 255 false
  let (d, input) ← readSeparator '.' false input >>= readNumber 10 3 255 false
  pure (BitVec.ofNat 32 (((a * 256 + b) * 256 + c) * 256 + d), input)

/-- Up to `limit` groups of an IPv6 address, with whether they end in an embedded IPv4 address
(which takes the place of two groups). -/
def readGroups : (limit : ℕ) → (first : Bool) → List Char → List ℕ × Bool × List Char
  | 0, _, input => ([], false, input)
  | limit + 1, first, input =>
      match if 1 ≤ limit then readSeparator ':' first input >>= readIpv4 else none with
      | some (v4, rest) => ([v4.toNat / 65536, v4.toNat % 65536], true, rest)
      | none =>
          match readSeparator ':' first input >>= readNumber 16 4 65535 true with
          | none => ([], false, input)
          | some (group, rest) =>
              let (groups, embedded, rest) := readGroups limit false rest
              (group :: groups, embedded, rest)

/-- The integer of eight groups. -/
def ofGroups (groups : List ℕ) : BitVec 128 :=
  BitVec.ofNat 128 (groups.foldl (fun acc g => acc * 65536 + g) 0)

/-- Eight groups, or fewer around one `::`. -/
def readIpv6 (input : List Char) : Option (BitVec 128 × List Char) :=
  match readGroups 8 true input with
  | (head, embedded, rest) =>
      if head.length = 8 then some (ofGroups head, rest)
      else if embedded then none
      else
        match rest with
        | ':' :: ':' :: rest =>
            match readGroups (7 - head.length) true rest with
            | (tail, _, rest) =>
                some (ofGroups (head ++ List.replicate (8 - head.length - tail.length) 0 ++ tail),
                  rest)
        | _ => none

/-- `str::parse::<IpAddr>`: an IPv4 or else an IPv6 address, and nothing after it. -/
def parseIpAddr (input : List Char) : Option IpAddr :=
  match readIpv4 input with
  | some (bits, rest) => if rest = [] then some (.v4 bits) else none
  | none =>
      match readIpv6 input with
      | some (bits, rest) => if rest = [] then some (.v6 bits) else none
      | none => none

/-- `str::parse::<u8>`: decimal digits after an optional plus sign. -/
def parseU8 (input : List Char) : Option ℕ :=
  let digits :=
    match input with
    | '+' :: rest => rest
    | _ => input
  if digits = [] ∨ ¬ digits.all fun c => (toDigit 10 c).isSome then none
  else
    let value := (digits.filterMap (toDigit 10)).foldl (fun acc d => acc * 10 + d) 0
    if value ≤ 255 then some value else none

/-! ## Prefixes -/

/-- `IpCidr::new`. -/
def IpCidr.new (address : IpAddr) (prefixLen : ℕ) : Except RouteError IpCidr :=
  if h : prefixLen ≤ address.width then .ok ⟨address, prefixLen, h⟩
  else .error (.invalidPrefix prefixLen address.width)

/-- `ipv4_mask` and `ipv6_mask`: the shift is checked, so a length beyond the width masks
everything away. -/
def prefixMask (width prefixLen : ℕ) : BitVec width :=
  if prefixLen = 0 ∨ width < prefixLen then 0 else BitVec.allOnes width <<< (width - prefixLen)

/-- Clear the host bits of an address. -/
def normalizeAddress (address : IpAddr) (prefixLen : ℕ) : IpAddr :=
  match address with
  | .v4 bits => .v4 (bits &&& prefixMask 32 prefixLen)
  | .v6 bits => .v6 (bits &&& prefixMask 128 prefixLen)

/-! ## Writing an address -/

/-- Four decimal octets separated by dots. -/
def ipv4Text (bits : ℕ) : String :=
  ".".intercalate ([bits / 16777216 % 256, bits / 65536 % 256, bits / 256 % 256, bits % 256].map
    toString)

/-- The eight groups of an IPv6 address. -/
def toGroups (bits : BitVec 128) : List ℕ :=
  (List.range 8).map fun i => bits.toNat / 65536 ^ (7 - i) % 65536

/-- The start and the length of the first longest run of zeros. -/
def longestZeros (groups : List ℕ) : ℕ × ℕ :=
  (groups.zipIdx.foldl (fun (longest, current) (group, i) =>
    if group = 0 then
      let current : ℕ × ℕ := (if current.2 = 0 then i else current.1, current.2 + 1)
      (if current.2 > longest.2 then current else longest, current)
    else (longest, (0, 0))) (((0, 0), (0, 0)) : (ℕ × ℕ) × (ℕ × ℕ))).1

/-- Groups in hexadecimal, separated by colons. -/
def groupsText (groups : List ℕ) : String :=
  ":".intercalate (groups.map fun group => String.ofList (Nat.toDigits 16 group))

/-- The text form of an address, as the standard library writes it. -/
def IpAddr.text : IpAddr → String
  | .v4 bits => ipv4Text bits.toNat
  | .v6 bits =>
      -- an IPv4-mapped address
      if bits.toNat / 4294967296 = 65535 then "::ffff:" ++ ipv4Text (bits.toNat % 4294967296)
      else
        match longestZeros (toGroups bits) with
        | (start, len) =>
            if len > 1 then
              groupsText ((toGroups bits).take start) ++ "::" ++
                groupsText ((toGroups bits).drop (start + len))
            else groupsText (toGroups bits)

example : (IpAddr.v6 0x20010db8000000000000000000000001).text = "2001:db8::1" := by
  decide +kernel

/-- `parse_cidr`. -/
def parseCidr (input : String) : Except RoutePrefixError IpCidr :=
  let address := input.toList.takeWhile (· ≠ '/')
  match input.toList.dropWhile (· ≠ '/') with
  | [] => .error .missingSlash
  | _ :: length =>
      match parseIpAddr address with
      | none => .error (.invalidAddress (String.ofList address))
      | some ip =>
          match parseU8 length with
          | none => .error (.invalidPrefix (String.ofList length))
          | some prefixLen =>
              match IpCidr.new (normalizeAddress ip prefixLen) prefixLen with
              | .error error => .error (.invalidPrefixLength error)
              | .ok cidr => .ok cidr

/-- A route of the configuration or of a grant. -/
structure RouteConfig where
  /-- The text of the route's address block. -/
  prefixText : String
  metric : ℕ
deriving DecidableEq, Repr

/-- `RouteConfig::prefix`. -/
def RouteConfig.cidr (route : RouteConfig) : Except RoutePrefixError IpCidr :=
  parseCidr route.prefixText

example : parseCidr "10.1.2.3/16" = .ok ⟨.v4 0x0a010000, 16, by decide⟩ := by
  decide +kernel

end P2pVpn.Net
