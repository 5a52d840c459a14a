import Mathlib.Algebra.GroupWithZero.Nat
import Limpid.Decimal

/-!
# Socket addresses

`std::net` as far as the program uses it: addresses, how they are displayed, and how they are
parsed.

Text is a list of characters.  A parser takes the text that is left and returns what it read
with the rest; where the standard library restores its position after a failure, the caller here
simply goes on with the text it had.
-/

namespace Limpid.Net

open Limpid.Decimal

/-! ## Addresses -/

/-- `Ipv4Addr` of the standard library. -/
structure Ipv4Addr where
  octets : Vector UInt8 4
deriving DecidableEq

/-- `Ipv4Addr::LOCALHOST`. -/
def Ipv4Addr.localhost : Ipv4Addr := ⟨#v[127, 0, 0, 1]⟩

/-- `Ipv6Addr`: eight segments of sixteen bits. -/
structure Ipv6Addr where
  segments : Vector UInt16 8
deriving DecidableEq

/-- `IpAddr`. -/
inductive IpAddr where
  | v4 (addr : Ipv4Addr)
  | v6 (addr : Ipv6Addr)
deriving DecidableEq

/-- `SocketAddr`. -/
inductive SocketAddr where
  | v4 (ip : Ipv4Addr) (port : UInt16)
  | v6 (ip : Ipv6Addr) (port : UInt16) (flowinfo scopeId : UInt32)
deriving DecidableEq

/-- `SocketAddr::ip`. -/
def SocketAddr.ip : SocketAddr → IpAddr
  | v4 ip _ => .v4 ip
  | v6 ip _ _ _ => .v6 ip

/-- `SocketAddr::port`. -/
def SocketAddr.port : SocketAddr → UInt16
  | v4 _ port => port
  | v6 _ port _ _ => port

/-! ## Display -/

/-- A separator between the parts. -/
def intercalate (separator : List Char) : List (List Char) → List Char
  | [] => []
  | [part] => part
  | part :: rest => part ++ separator ++ intercalate separator rest

/-- Four decimal numbers with dots between them. -/
def Ipv4Addr.display (addr : Ipv4Addr) : List Char :=
  intercalate ['.'] (addr.octets.toList.map fun octet => formatNat octet.toNat)

/-- `{:x}`. -/
def formatHex (n : ℕ) : List Char := Nat.toDigits 16 n

/-- A run of zero segments: where it starts and how long it is. -/
structure Span where
  start : ℕ
  len : ℕ
deriving DecidableEq

/-- The longest run of zero segments, the first one if there are several. -/
def longestZeros (segments : List UInt16) : Span :=
  (segments.zipIdx.foldl (fun (longest, current) (segment, i) =>
    if segment = 0 then
      let current : Span := ⟨if current.len = 0 then i else current.start, current.len + 1⟩
      (if longest.len < current.len then current else longest, current)
    else (longest, ⟨0, 0⟩)) ((⟨0, 0⟩ : Span), (⟨0, 0⟩ : Span))).1

/-- Hexadecimal segments with colons between them. -/
def displaySegments (segments : List UInt16) : List Char :=
  intercalate [':'] (segments.map fun segment => formatHex segment.toNat)

/-- The two octets of a segment. -/
def octetsOf (segment : UInt16) : UInt8 × UInt8 :=
  ((segment >>> 8).toUInt8, segment.toUInt8)

/-- The address that is mapped into the last four octets. -/
def Ipv6Addr.toIpv4Mapped (addr : Ipv6Addr) : Option Ipv4Addr :=
  match addr.segments.toList with
  | [0, 0, 0, 0, 0, 0xffff, ab, cd] =>
      some ⟨#v[(octetsOf ab).1, (octetsOf ab).2, (octetsOf cd).1, (octetsOf cd).2]⟩
  | _ => none

/-- The longest run of zero segments is written `::`, and a mapped address ends in dotted form. -/
def Ipv6Addr.display (addr : Ipv6Addr) : List Char :=
  match addr.toIpv4Mapped with
  | some ipv4 => [':', ':', 'f', 'f', 'f', 'f', ':'] ++ ipv4.display
  | none =>
      let zeros := longestZeros addr.segments.toList
      if 1 < zeros.len then
        displaySegments (addr.segments.toList.take zeros.start) ++ [':', ':'] ++
          displaySegments (addr.segments.toList.drop (zeros.start + zeros.len))
      else displaySegments addr.segments.toList

/-- `Display` of `IpAddr`. -/
def IpAddr.display : IpAddr → List Char
  | v4 addr => addr.display
  | v6 addr => addr.display

/-! ## Parsing -/

/-- A parser of an `α`. -/
abbrev Parser (α : Type) := List Char → Option (α × List Char)

/-- One character is read. -/
def readGivenChar (target : Char) : Parser Unit
  | [] => none
  | c :: rest => if c = target then some ((), rest) else none

/-- The value of a digit, `char::to_digit`. -/
def toDigit (radix : ℕ) (c : Char) : Option ℕ :=
  let value :=
    if c.isDigit then some (c.toNat - '0'.toNat)
    else if 'a' ≤ c ∧ c ≤ 'f' then some (c.toNat - 'a'.toNat + 10)
    else if 'A' ≤ c ∧ c ≤ 'F' then some (c.toNat - 'A'.toNat + 10)
    else none
  value.filter (· < radix)

/-- The digits the text begins with, by their values, and the text after them. -/
def readDigits (radix : ℕ) : List Char → List ℕ × List Char
  | [] => ([], [])
  | c :: rest =>
      match toDigit radix c with
      | none => ([], c :: rest)
      | some digit => (digit :: (readDigits radix rest).1, (readDigits radix rest).2)

/-- `read_number` for a type whose values are below `bound`. -/
def readNumber (radix : ℕ) (maxDigits : Option ℕ) (allowZeroPrefix : Bool) (bound : ℕ) :
    Parser ℕ := fun text =>
  let (digits, rest) := readDigits radix text
  let value := digits.foldl (fun n digit => n * radix + digit) 0
  if maxDigits.any (· < digits.length) then none
  else if digits = [] then none
  else if allowZeroPrefix = false ∧ text.head? = some '0' ∧ 1 < digits.length then none
  else if bound ≤ value then none
  else some (value, rest)

/-- `read_separator`. -/
def readSeparator {α : Type} (separator : Char) (index : ℕ) (inner : Parser α) : Parser α :=
  fun text =>
    if 0 < index then
      match readGivenChar separator text with
      | none => none
      | some (_, rest) => inner rest
    else inner text

/-- A decimal number below 256 of at most three digits. -/
def readOctet : Parser UInt8 := fun text =>
  (readNumber 10 (some 3) false 256 text).map fun (n, rest) => (UInt8.ofNat n, rest)

/-- Four octets with dots between them. -/
def readIpv4Addr : Parser Ipv4Addr := fun text => do
  let (a, text) ← readSeparator '.' 0 readOctet text
  let (b, text) ← readSeparator '.' 1 readOctet text
  let (c, text) ← readSeparator '.' 2 readOctet text
  let (d, text) ← readSeparator '.' 3 readOctet text
  some (⟨#v[a, b, c, d]⟩, text)

/-- Two octets of an embedded address as one segment. -/
def segmentOf (high low : UInt8) : UInt16 := high.toUInt16 <<< 8 ||| low.toUInt16

/-- `read_groups`, with `left` groups to fill of which the next has number `index`: the groups
read, whether the last two were an embedded IPv4 address, and the text after them. -/
def readGroups : ℕ → ℕ → List Char → List UInt16 × Bool × List Char
  | 0, _, text => ([], false, text)
  | left + 1, index, text =>
      match if 0 < left then readSeparator ':' index readIpv4Addr text else none with
      | some (v4, rest) =>
          ([segmentOf v4.octets[0] v4.octets[1], segmentOf v4.octets[2] v4.octets[3]], true,
            rest)
      | none =>
          match readSeparator ':' index (readNumber 16 (some 4) true 65536) text with
          | none => ([], false, text)
          | some (group, rest) =>
              let (groups, ipv4, rest) := readGroups left (index + 1) rest
              (UInt16.ofNat group :: groups, ipv4, rest)

/-- Eight segments: the first ones given, zeros, and the last ones given. -/
def ofHeadTail (head tail : List UInt16) : Ipv6Addr :=
  ⟨Vector.ofFn fun i =>
    if i.val < 8 - tail.length then head.getD i.val 0
    else tail.getD (i.val - (8 - tail.length)) 0⟩

/-- The groups before `::`, and those after it. -/
def readIpv6Addr : Parser Ipv6Addr := fun text =>
  let (head, headIpv4, text) := readGroups 8 0 text
  if head.length = 8 then some (ofHeadTail head [], text)
  else if headIpv4 then none
  else do
    let (_, text) ← readGivenChar ':' text
    let (_, text) ← readGivenChar ':' text
    let (tail, _, text) := readGroups (8 - (head.length + 1)) 0 text
    some (ofHeadTail head tail, text)

/-- A colon and a number. -/
def readPort : Parser UInt16 := fun text => do
  let (_, text) ← readGivenChar ':' text
  let (port, text) ← readNumber 10 none true 65536 text
  some (UInt16.ofNat port, text)

/-- A percent sign and a number. -/
def readScopeId : Parser UInt32 := fun text => do
  let (_, text) ← readGivenChar '%' text
  let (scopeId, text) ← readNumber 10 none true (2 ^ 32) text
  some (UInt32.ofNat scopeId, text)

/-- An address of the fourth version and a port. -/
def readSocketAddrV4 : Parser SocketAddr := fun text => do
  let (ip, text) ← readIpv4Addr text
  let (port, text) ← readPort text
  some (.v4 ip port, text)

/-- An address in brackets, maybe a scope, and a port. -/
def readSocketAddrV6 : Parser SocketAddr := fun text => do
  let (_, text) ← readGivenChar '[' text
  let (ip, text) ← readIpv6Addr text
  let (scopeId, text) := (readScopeId text).getD (0, text)
  let (_, text) ← readGivenChar ']' text
  let (port, text) ← readPort text
  some (.v6 ip port 0 scopeId, text)

/-- The fourth version is tried first. -/
def readSocketAddr : Parser SocketAddr := fun text =>
  match readSocketAddrV4 text with
  | some result => some result
  | none => readSocketAddrV6 text

/-- `str::parse::<SocketAddr>`: the whole text must be read. -/
def parseSocketAddr (text : List Char) : Option SocketAddr :=
  match readSocketAddr text with
  | some (addr, []) => some addr
  | _ => none

end Limpid.Net
