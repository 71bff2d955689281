import Ferron.Common.IpBlockList

/-!
# Addresses as they are displayed

`displayIp` writes an address in the way of the standard library: an IPv6 address has its segments in
hexadecimal, with the first longest span of zeros left out.
-/

set_option autoImplicit false

namespace Ferron.Common

/-- A number in some base, as it is displayed. -/
def displayNat (base n : Nat) : Str := Nat.toDigits base n

/-- An IPv4 address. -/
def displayV4 (address : BitVec 32) : Str :=
  ['.'].intercalate ((List.range 4).map fun i =>
    displayNat 10 (address.extractLsb' (24 - 8 * i) 8).toNat)

/-- `segments`. -/
def segments (address : BitVec 128) : List Nat :=
  (List.range 8).map fun i => (address.extractLsb' (112 - 16 * i) 16).toNat

/-- The number of zeros that some segments start with. -/
def zeroSpan (segments : List Nat) : Nat := (segments.takeWhile (· == 0)).length

/-- The first longest span of zeros: where it starts and its length. -/
def longestZeroes (segments : List Nat) : Nat × Nat :=
  (List.range segments.length).foldl (fun longest start =>
    if longest.2 < zeroSpan (segments.drop start) then (start, zeroSpan (segments.drop start))
    else longest) (0, 0)

/-- Segments with colons between them. -/
def fmtSubslice (segments : List Nat) : Str := [':'].intercalate (segments.map (displayNat 16))

/-- An IPv6 address. -/
def displayV6 (address : BitVec 128) : Str :=
  if address >>> 32 = 0xffff then "::ffff:".toList ++ displayV4 (address.extractLsb' 0 32)
  else
    let zeroes := longestZeroes (segments address)
    if 1 < zeroes.2 then
      fmtSubslice ((segments address).take zeroes.1) ++ "::".toList ++
        fmtSubslice ((segments address).drop (zeroes.1 + zeroes.2))
    else fmtSubslice (segments address)

/-- The address as it is displayed. -/
def displayIp : IpAddr → Str
  | .v4 address => displayV4 address
  | .v6 address => displayV6 address

end Ferron.Common
