import Mathlib.Data.List.Basic

/-!
# The upstream address blacklist

A process-wide set of IPv4 addresses and a counter of its changes.  `contains` is
asked with an address text, with or without a port; anything that does not parse
as an IPv4 address is a hostname and never on the list.
-/

namespace Hypersync

/-! ## 1. Address texts -/

abbrev Ipv4Addr := UInt8 × UInt8 × UInt8 × UInt8

/-- The value of a text of decimal digits. -/
def decimal (cs : List Char) : Nat :=
  cs.foldl (fun v c => 10 * v + (c.toNat - '0'.toNat)) 0

/-- One octet of a dotted quad: one to three digits, no leading zero, at most 255. -/
def parseOctet (cs : List Char) : Option UInt8 :=
  if cs ≠ [] ∧ cs.length ≤ 3 ∧ cs.all Char.isDigit ∧ (cs.length = 1 ∨ cs.head? ≠ some '0') ∧
      decimal cs ≤ 255 then
    some (UInt8.ofNat (decimal cs))
  else none

/-- `str::parse::<Ipv4Addr>` -/
def parseIpv4 (cs : List Char) : Option Ipv4Addr :=
  match cs.splitOn '.' with
  | [a, b, c, d] =>
    match parseOctet a, parseOctet b, parseOctet c, parseOctet d with
    | some a, some b, some c, some d => some (a, b, c, d)
    | _, _, _, _ => none
  | _ => none

/-- `str::parse::<u16>().is_ok()`: digits, after at most one plus sign. -/
def parsesAsU16 (cs : List Char) : Bool :=
  let digits := if cs.head? = some '+' then cs.tail else cs
  digits ≠ [] ∧ digits.all Char.isDigit ∧ decimal digits ≤ 65535

/-- The text before the last colon, if a port follows it; the whole text otherwise. -/
def hostOf (addr : String) : List Char :=
  let cs := addr.toList
  let port := (cs.reverse.takeWhile (· ≠ ':')).reverse
  match cs.reverse.dropWhile (· ≠ ':') with
  | _ :: host => if parsesAsU16 port then host.reverse else cs
  | [] => cs

/-! ## 2. The list -/

structure Blacklist where
  ips : List Ipv4Addr := []
  version : Nat := 0

namespace Blacklist

def contains (b : Blacklist) (addr : String) : Bool :=
  if b.ips.length = 0 then false
  else
    match parseIpv4 (hostOf addr) with
    | some ip => ip ∈ b.ips
    | none => false

/-- `install_set` -/
def installSet (b : Blacklist) (ips : List Ipv4Addr) : Blacklist :=
  { ips := ips, version := b.version + 1 }

/-- `reload`, given the set it parsed: a set equal to the installed one changes
    nothing, not even the version. -/
def reload (b : Blacklist) (ips : List Ipv4Addr) : Blacklist :=
  if ips.all (· ∈ b.ips) ∧ b.ips.all (· ∈ ips) then b else b.installSet ips

example : ({ ips := [(192, 0, 2, 7)] } : Blacklist).contains "192.0.2.7:4001" = true := by decide

example : ({ ips := [(192, 0, 2, 7)] } : Blacklist).contains "192.0.2.70" = false := by decide

/-- A reload that changes the list changes its version. -/
theorem reload_eq_or (b : Blacklist) (ips : List Ipv4Addr) :
    b.reload ips = b ∨ (b.reload ips).version = b.version + 1 := by
  unfold reload
  split
  · exact Or.inl rfl
  · exact Or.inr rfl

end Blacklist

end Hypersync
