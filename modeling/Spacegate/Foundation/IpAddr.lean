import Mathlib.Tactic

/-!
# Textual IP addresses

`Ipv4Addr::from_str` and `Ipv6Addr::from_str` of the Rust standard library, as
the recursive-descent parser they are: every reader consumes a front part of the
input or fails without consuming anything.  An address is the number its bits
spell, so equality and order are the ones the address types have.
-/

namespace Spacegate.Foundation.IpAddr

/-- `std::net::Ipv4Addr`. -/
abbrev Ipv4Addr := Fin (2 ^ 32)

/-- `std::net::Ipv6Addr`. -/
abbrev Ipv6Addr := Fin (2 ^ 128)

/-- A reader returns what it read and the input that is left. -/
abbrev Reader (α : Type) := List Char → Option (α × List Char)

/-- `char::to_digit`. -/
def toDigit (radix : Nat) (c : Char) : Option Nat :=
  let digit :=
    if '0' ≤ c ∧ c ≤ '9' then c.toNat - '0'.toNat
    else if 'a' ≤ c ∧ c ≤ 'z' then c.toNat - 'a'.toNat + 10
    else if 'A' ≤ c ∧ c ≤ 'Z' then c.toNat - 'A'.toNat + 10
    else radix
  if digit < radix then some digit else none

/-- The longest front part of digits, with the rest. -/
def readDigits (radix : Nat) : List Char → List Nat × List Char
  | [] => ([], [])
  | c :: rest =>
    match toDigit radix c with
    | none => ([], c :: rest)
    | some digit =>
      let (digits, rest') := readDigits radix rest
      (digit :: digits, rest')

/-- `Parser::read_number` with a digit limit; `bound` is the first value that no
longer fits the result type. -/
def readNumber (radix maxDigits : Nat) (allowZeroPrefix : Bool) (bound : Nat) : Reader Nat :=
  fun input =>
    let (digits, rest) := readDigits radix input
    let value := digits.foldl (fun acc digit => acc * radix + digit) 0
    if maxDigits < digits.length then none
    else if digits = [] then none
    else if !allowZeroPrefix && digits.head? = some 0 && 1 < digits.length then none
    else if value < bound then some (value, rest)
    else none

/-- `Parser::read_given_char`. -/
def readGivenChar (c : Char) : Reader Unit
  | [] => none
  | c' :: rest => if c' = c then some ((), rest) else none

/-- `Parser::read_separator`: the separator stands before every group but the
first. -/
def readSeparator {α : Type} (separator : Char) (index : Nat) (inner : Reader α) : Reader α :=
  fun input =>
    if 0 < index then
      (readGivenChar separator input).bind fun read => inner read.2
    else
      inner input

/-- One octet of a dotted address; a leading zero is refused. -/
def readOctet (index : Nat) : Reader Nat :=
  readSeparator '.' index (readNumber 10 3 false 256)

/-- `Parser::read_ipv4_addr`, as the number of the four octets. -/
def readIpv4Addr : Reader Nat := fun input => do
  let (a, input) ← readOctet 0 input
  let (b, input) ← readOctet 1 input
  let (c, input) ← readOctet 2 input
  let (d, input) ← readOctet 3 input
  pure (((a * 256 + b) * 256 + c) * 256 + d, input)

/-- `read_groups` with `slots` groups left, the next one being number `index`.
The flag reports an embedded IPv4 address, which fills the last two groups. -/
def readGroups : (slots index : Nat) → List Char → List Nat × Bool × List Char
  | 0, _, input => ([], false, input)
  | slots + 1, index, input =>
    let embedded :=
      if 0 < slots then readSeparator ':' index readIpv4Addr input else none
    match embedded with
    | some (v4, rest) => ([v4 / 65536, v4 % 65536], true, rest)
    | none =>
      match readSeparator ':' index (readNumber 16 4 true 65536) input with
      | none => ([], false, input)
      | some (group, rest) =>
        let (groups, v4, rest') := readGroups slots (index + 1) rest
        (group :: groups, v4, rest')

/-- The number spelled by a list of 16-bit groups. -/
def groupsValue (groups : List Nat) : Nat :=
  groups.foldl (fun acc group => acc * 65536 + group) 0

/-- `Parser::read_ipv6_addr`: eight groups, or a head and a tail around `::`. -/
def readIpv6Addr : Reader Nat := fun input => do
  let (head, headIpv4, input) := readGroups 8 0 input
  if head.length = 8 then
    return (groupsValue head, input)
  -- An embedded IPv4 address is not allowed before `::`.
  if headIpv4 then none
  let (_, input) ← readGivenChar ':' input
  let (_, input) ← readGivenChar ':' input
  let (tail, _, input) := readGroups (8 - (head.length + 1)) 0 input
  let zeroes := List.replicate (8 - head.length - tail.length) 0
  return (groupsValue (head ++ zeroes ++ tail), input)

/-- `str::parse::<Ipv4Addr>`; texts longer than fifteen bytes are refused before
anything is read. -/
def parseIpv4 (s : String) : Option Ipv4Addr :=
  if 15 < s.utf8ByteSize then none
  else
    match readIpv4Addr s.toList with
    | some (bits, []) => some (Fin.ofNat _ bits)
    | _ => none

/-- `str::parse::<Ipv6Addr>`. -/
def parseIpv6 (s : String) : Option Ipv6Addr :=
  match readIpv6Addr s.toList with
  | some (bits, []) => some (Fin.ofNat _ bits)
  | _ => none

end Spacegate.Foundation.IpAddr
