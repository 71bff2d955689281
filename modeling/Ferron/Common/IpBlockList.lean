import Ferron.Rust.Collections
import Mathlib.Tactic

/-!
# Lists of addresses

An `IpBlockList` is a set of addresses and a set of networks. Its equality is that of sets, but its
order goes through both sets in their iteration orders.
-/

set_option autoImplicit false

namespace Ferron.Common

open Std

/-- An IP address. -/
inductive IpAddr where
  | v4 (address : BitVec 32)
  | v6 (address : BitVec 128)
  deriving DecidableEq, Repr

namespace IpAddr

/-- The order of addresses: IPv4 before IPv6, each by value. -/
protected def cmp : IpAddr → IpAddr → Ordering
  | v4 a, v4 b => compare a b
  | v4 _, v6 _ => .lt
  | v6 _, v4 _ => .gt
  | v6 a, v6 b => compare a b

instance : Ord IpAddr := ⟨IpAddr.cmp⟩

theorem compare_eq (a b : IpAddr) : compare a b = IpAddr.cmp a b := rfl

instance : LawfulEqOrd IpAddr where
  compare_self {a} := by
    cases a <;> simp [compare_eq, IpAddr.cmp]
  eq_of_compare {a b} h := by
    cases a <;> cases b <;> simp_all [compare_eq, IpAddr.cmp]

instance : TransOrd IpAddr where
  eq_swap {a b} := by
    cases a <;> cases b <;> simp only [compare_eq, IpAddr.cmp, Ordering.swap]
    · exact OrientedCmp.eq_swap
    · exact OrientedCmp.eq_swap
  isLE_trans {a b c} hab hbc := by
    cases a <;> cases b <;> cases c <;> simp_all [compare_eq, IpAddr.cmp]
    · exact TransCmp.isLE_trans hab hbc
    · exact TransCmp.isLE_trans hab hbc

/-- `to_canonical`: an IPv4-mapped IPv6 address is the IPv4 address. -/
def toCanonical : IpAddr → IpAddr
  | v4 address => v4 address
  | v6 address => if address >>> 32 = 0xffff then v4 (address.setWidth 32) else v6 address

end IpAddr

/-- A network: its address and the length of its prefix. -/
structure IpCidr where
  address : IpAddr
  networkLength : UInt8
  deriving DecidableEq

namespace IpCidr

instance : Ord IpCidr := ⟨compareLex (compareOn address) (compareOn networkLength)⟩

theorem compare_eq (a b : IpCidr) :
    compare a b = compareLex (compareOn address) (compareOn networkLength) a b := rfl

instance : TransOrd IpCidr :=
  inferInstanceAs (TransCmp (compareLex (compareOn address) (compareOn networkLength)))

instance : LawfulEqOrd IpCidr where
  compare_self {a} := ReflCmp.compare_self
  eq_of_compare {a b} h := by
    rw [compare_eq, compareLex_eq_eq] at h
    cases a
    cases b
    simpa [compareOn] using h

/-- `contains`: the addresses of one kind agree up to the length of the prefix. -/
def contains (cidr : IpCidr) (ip : IpAddr) : Bool :=
  match cidr.address, ip with
  | .v4 network, .v4 address =>
      network >>> (32 - cidr.networkLength.toNat) == address >>> (32 - cidr.networkLength.toNat)
  | .v6 network, .v6 address =>
      network >>> (128 - cidr.networkLength.toNat) == address >>> (128 - cidr.networkLength.toNat)
  | _, _ => false

end IpCidr

/-- The IP blocklist. -/
structure IpBlockList where
  blockedIps : HashSet IpAddr
  blockedCidrs : HashSet IpCidr

namespace IpBlockList

/-- `new`. -/
def new : IpBlockList := ⟨HashSet.new, HashSet.new⟩

/-- How addresses and networks are read, and how the two tables of a list are arranged. Each list has
tables of its own, by the number of lists before it. -/
structure Reading where
  parseIpAddr : Str → Option IpAddr
  parseIpCidr : Str → Option IpCidr
  ipOrder : Nat → HashSet.TableOrder IpAddr
  cidrOrder : Nat → HashSet.TableOrder IpCidr

/-- `load_from_vec` for one text. -/
def loadOne (reading : Reading) (table : Nat) (list : IpBlockList) (ip : Str) : IpBlockList :=
  if ip = "localhost".toList then
    { list with blockedIps := list.blockedIps.insert (reading.ipOrder table) (.v6 1) }
  else
    match reading.parseIpAddr ip with
    | some address =>
        { list with
          blockedIps := list.blockedIps.insert (reading.ipOrder table) address.toCanonical }
    | none =>
        match reading.parseIpCidr ip with
        | some cidr =>
            { list with
              blockedCidrs := list.blockedCidrs.insert (reading.cidrOrder table) cidr }
        | none => list

/-- `load_from_vec`. -/
def loadFromVec (reading : Reading) (table : Nat) (list : IpBlockList) (ips : List Str) :
    IpBlockList :=
  ips.foldl (loadOne reading table) list

/-- `is_blocked`. -/
def isBlocked (list : IpBlockList) (ip : IpAddr) : Bool :=
  list.blockedIps.contains ip.toCanonical ||
    list.blockedCidrs.iter.any fun cidr => cidr.contains ip.toCanonical

/-- `==`. -/
protected def eq (a b : IpBlockList) : Bool :=
  a.blockedIps == b.blockedIps && a.blockedCidrs == b.blockedCidrs

instance : BEq IpBlockList := ⟨IpBlockList.eq⟩

/-- `cmp`: the addresses, then the networks, each in iteration order. -/
protected def cmp (a b : IpBlockList) : Ordering :=
  (compare a.blockedIps.iter b.blockedIps.iter).then
    (compare a.blockedCidrs.iter b.blockedCidrs.iter)

instance : Ord IpBlockList := ⟨IpBlockList.cmp⟩

theorem beq_eq (a b : IpBlockList) :
    (a == b) = (a.blockedIps == b.blockedIps && a.blockedCidrs == b.blockedCidrs) := rfl

instance : EquivBEq IpBlockList where
  rfl := by simp [beq_eq]
  symm h := by
    simp only [beq_eq, Bool.and_eq_true] at h ⊢
    exact ⟨PartialEquivBEq.symm h.1, PartialEquivBEq.symm h.2⟩
  trans h₁ h₂ := by
    simp only [beq_eq, Bool.and_eq_true] at h₁ h₂ ⊢
    exact ⟨PartialEquivBEq.trans h₁.1 h₂.1, PartialEquivBEq.trans h₁.2 h₂.2⟩

/-- Equal lists block the same addresses, whatever the order of their tables. -/
theorem isBlocked_congr {a b : IpBlockList} (h : (a == b) = true) (ip : IpAddr) :
    a.isBlocked ip = b.isBlocked ip := by
  rw [beq_eq, Bool.and_eq_true, HashSet.beq_iff_perm, HashSet.beq_iff_perm] at h
  rw [isBlocked, isBlocked, HashSet.contains, HashSet.contains, h.1.contains_eq, h.2.any_eq]

theorem compare_eq (a b : IpBlockList) :
    compare a b = compareLex (compareOn fun l => l.blockedIps.iter)
      (compareOn fun l => l.blockedCidrs.iter) a b := rfl

instance : TransOrd IpBlockList :=
  inferInstanceAs (TransCmp (compareLex (compareOn fun l : IpBlockList => l.blockedIps.iter)
    (compareOn fun l => l.blockedCidrs.iter)))

/-- Lists that compare equal are equal: the same elements come in the same order. -/
instance : LawfulEqOrd IpBlockList where
  compare_self {a} := ReflCmp.compare_self
  eq_of_compare {a b} h := by
    rw [compare_eq, compareLex_eq_eq] at h
    obtain ⟨⟨ips, _⟩, ⟨cidrs, _⟩⟩ := a
    obtain ⟨⟨ips', _⟩, ⟨cidrs', _⟩⟩ := b
    simpa [compareOn] using h

end IpBlockList

end Ferron.Common
