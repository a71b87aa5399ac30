import Mathlib.Data.List.Dedup
import Mathlib.Data.List.Sort
import OpenstackPlatform.StorageInstances.Contract

/-!
# Address texts

`ipaddress.ip_address` and `str` of its result, as the standard library documents them: a dotted
quad without leading zeros, or an IPv6 address with at most one `::`, an optional dotted quad at its
end and an optional scope ID after a `%`.  A scope ID is any text that is not empty and has no
second `%`; `str` keeps it as it is.

An address is its list of octets or hextets, most significant first, which is the integer the
library keeps in another form.  Texts are lists of characters here and strings at the boundary
(`ipAddress`, `IpAddress.text`).
-/

namespace OpenstackPlatform
namespace StorageInstances

/-- An address, with the scope ID of an IPv6 address. -/
inductive IpAddress where
  | v4 (octets : List Nat)
  | v6 (hextets : List Nat) (scopeId : Option (List Char))
  deriving DecidableEq

namespace IpAddress

/-- The number that digits spell in a base. -/
def number (base : Nat) (digit : Char → Nat) (text : List Char) : Nat :=
  text.foldl (fun n c => n * base + digit c) 0

/-- The value of a decimal digit. -/
def decimalDigit (c : Char) : Nat := c.toNat - '0'.toNat

/-- The value of a hexadecimal digit of either case. -/
def hexDigit (c : Char) : Nat :=
  if c.isDigit then c.toNat - '0'.toNat
  else if 'a' ≤ c then c.toNat - 'a'.toNat + 10
  else c.toNat - 'A'.toNat + 10

/-- `_HEX_DIGITS` -/
def isHex (c : Char) : Bool := c.isDigit || ('a' ≤ c && c ≤ 'f') || ('A' ≤ c && c ≤ 'F')

/-- `_parse_octet` -/
def parseOctet (text : List Char) : Option Nat :=
  if text.isEmpty || !text.all Char.isDigit || 3 < text.length then none
  else if text ≠ ['0'] && text.head? == some '0' then none
  else if 255 < number 10 decimalDigit text then none
  else some (number 10 decimalDigit text)

/-- `IPv4Address._ip_int_from_string` -/
def parseV4 (text : List Char) : Option (List Nat) :=
  if (text.splitOn '.').length ≠ 4 then none else (text.splitOn '.').mapM parseOctet

/-- `_parse_hextet` -/
def parseHextet (text : List Char) : Option Nat :=
  if text.isEmpty || !text.all isHex || 4 < text.length then none
  else some (number 16 hexDigit text)

/-- `'%x' % n` -/
def hexText (n : Nat) : List Char := Nat.toDigits 16 n

/-- `str` of an octet. -/
def decimalText (n : Nat) : List Char := Nat.toDigits 10 n

/-- The parts of an IPv6 text, with a dotted quad at the end turned into two hextets. -/
def v6Parts (text : List Char) : Option (List (List Char)) :=
  let parts := text.splitOn ':'
  if parts.length < 3 then none
  else match parts.getLast? with
    | some last =>
      if last.contains '.' then
        match parseV4 last with
        | some [a, b, c, d] => some (parts.dropLast ++ [hexText (a * 256 + b), hexText (c * 256 + d)])
        | _ => none
      else some parts
    | none => none

/-- The positions inside the text, its two ends aside, at which a part is empty. -/
def skipped (parts : List (List Char)) : List Nat :=
  (List.range parts.length).filter fun i =>
    0 < i && i + 1 < parts.length && (parts.getD i []).isEmpty

/-- The hextets of the parts of a text: a `::` stands for as many zeros as are missing. -/
def hextetsOf (parts : List (List Char)) : Option (List Nat) :=
  if 9 < parts.length then none
  else match skipped parts with
    | [] => if parts.length ≠ 8 then none else parts.mapM parseHextet
    | [i] =>
      let high := parts.take i
      let low := parts.drop (i + 1)
      -- An empty part at an end belongs to the `::` there and must be alone.
      let high' := if high.head? = some [] then high.tail else high
      let low' := if low.getLast? = some [] then low.dropLast else low
      if high.head? = some [] && !high'.isEmpty then none
      else if low.getLast? = some [] && !low'.isEmpty then none
      else if 8 ≤ high'.length + low'.length then none
      else do
        let highs ← high'.mapM parseHextet
        let lows ← low'.mapM parseHextet
        return highs ++ List.replicate (8 - (highs.length + lows.length)) 0 ++ lows
    | _ => none

/-- `IPv6Address._ip_int_from_string` -/
def parseV6 (text : List Char) : Option (List Nat) :=
  if text.isEmpty || 45 < text.length then none else (v6Parts text).bind hextetsOf

/-- `_split_scope_id`: the text before the first `%` and the scope ID after it. -/
def splitScopeId (text : List Char) : Option (List Char × Option (List Char)) :=
  if text.contains '%' then
    let scopeId := (text.dropWhile (· ≠ '%')).tail
    if scopeId.isEmpty || scopeId.contains '%' then none
    else some (text.takeWhile (· ≠ '%'), some scopeId)
  else some (text, none)

/-- `ip_address` on the characters of a text. -/
def parse (text : List Char) : Option IpAddress :=
  if text.contains '/' then none
  else match parseV4 text with
    | some octets => some (.v4 octets)
    | none => do
      let (address, scopeId) ← splitScopeId text
      let hextets ← parseV6 address
      return .v6 hextets scopeId

/-! ## Rendering -/

/-- The loop of `_compress_hextets`: the first of the longest runs of zeros, as its start and its
length, with the run that is still open. -/
structure ZeroRun where
  bestStart : Nat
  bestLength : Nat
  start : Nat
  length : Nat

/-- One round of the loop of `_compress_hextets`, at a position of the list. -/
def ZeroRun.next (run : ZeroRun) (index hextet : Nat) : ZeroRun :=
  if hextet = 0 then
    let start := if run.length = 0 then index else run.start
    let length := run.length + 1
    if run.bestLength < length then ⟨start, length, start, length⟩
    else ⟨run.bestStart, run.bestLength, start, length⟩
  else ⟨run.bestStart, run.bestLength, index + 1, 0⟩

/-- The loop of `_compress_hextets` over the hextets from a position on. -/
def zeroRun : List Nat → Nat → ZeroRun → ZeroRun
  | [], _, run => run
  | hextet :: hextets, index, run => zeroRun hextets (index + 1) (run.next index hextet)

/-- `_compress_hextets`, on the texts of the hextets. -/
def compress (hextets : List Nat) : List (List Char) :=
  let run := zeroRun hextets 0 ⟨0, 0, 0, 0⟩
  let texts := hextets.map hexText
  if 1 < run.bestLength then
    let stop := run.bestStart + run.bestLength
    (if run.bestStart = 0 then [[]] else []) ++ texts.take run.bestStart ++ [[]] ++
      texts.drop stop ++ if stop = hextets.length then [[]] else []
  else texts

/-- The text of the hextets of an IPv6 address; the last two of an IPv4-mapped one are a dotted
quad. -/
def v6Text : List Nat → List Char
  | [0, 0, 0, 0, 0, 0xffff, high, low] =>
    "::ffff:".toList ++ List.intercalate ['.']
      ([high / 256, high % 256, low / 256, low % 256].map decimalText)
  | hextets => List.intercalate [':'] (compress hextets)

/-- `str` of an address. -/
def chars : IpAddress → List Char
  | v4 octets => List.intercalate ['.'] (octets.map decimalText)
  | v6 hextets none => v6Text hextets
  | v6 hextets (some scopeId) => v6Text hextets ++ '%' :: scopeId

/-- `str` of an address, as a string. -/
def text (a : IpAddress) : String := String.ofList a.chars

end IpAddress

/-- `ipaddress.ip_address` -/
def ipAddress (value : String) : Option IpAddress := IpAddress.parse value.toList

/-- `sorted` of a set of texts. -/
def sortedSet (values : List String) : List String := values.dedup.insertionSort (· ≤ ·)

/-- `Manager.addresses`: at most eight addresses, each in its canonical text. -/
def addresses (values : List String) : Except InstanceError (List String) :=
  if 8 < values.length then .error (.validation "instance allowlist is invalid")
  else match values.mapM ipAddress with
    | some parsed => .ok (sortedSet (parsed.map IpAddress.text))
    | none => .error (.validation "instance allowlist address is invalid")

end StorageInstances
end OpenstackPlatform
