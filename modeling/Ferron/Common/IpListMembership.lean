import Ferron.Common.IpBlockList

/-!
# Membership in lists of addresses

A text in a list names an address or a network. An IPv4-mapped IPv6 address is the IPv4 address, and a
network in which all addresses are IPv4-mapped is the network of the IPv4 addresses. The addresses in an
`IpBlockList` are canonical, and so is the address that is looked up, but the networks stay as they are
written.

`isBlocked_listed_iff` says for which lists and clients `is_blocked` finds what is listed: those without an
IPv4-mapped network that is the only one to list the client.
-/

set_option autoImplicit false

namespace Ferron.Common

/-! ## What is listed -/

namespace IpCidr

/-- All addresses of the network are IPv4-mapped. -/
def isMapped (cidr : IpCidr) : Bool :=
  match cidr.address with
  | .v4 _ => false
  | .v6 network => 96 ≤ cidr.networkLength.toNat && network >>> 32 == 0xffff

/-- An IPv4-mapped network is the IPv4 network. -/
def toCanonical (cidr : IpCidr) : IpCidr :=
  if cidr.isMapped then ⟨cidr.address.toCanonical, cidr.networkLength - 96⟩ else cidr

end IpCidr

namespace IpBlockList

/-- What a text in a list stands for. -/
inductive Listing where
  | address (address : IpAddr)
  | network (cidr : IpCidr)
  deriving DecidableEq

/-- An address is the same one, or lies in the network, in canonical form. -/
def Listing.Lists (ip : IpAddr) : Listing → Prop
  | .address listed => listed.toCanonical = ip.toCanonical
  | .network cidr => cidr.toCanonical.contains ip.toCanonical = true

instance (ip : IpAddr) : (listing : Listing) → Decidable (listing.Lists ip)
  | .address listed => inferInstanceAs (Decidable (listed.toCanonical = ip.toCanonical))
  | .network cidr => inferInstanceAs (Decidable (cidr.toCanonical.contains ip.toCanonical = true))

/-- An IPv4-mapped network. -/
def Listing.IsMappedNetwork : Listing → Prop
  | .address _ => False
  | .network cidr => cidr.isMapped = true

/-- What a text stands for, if it is read. `localhost` is the loopback address. -/
def Reading.listing (reading : Reading) (text : Str) : Option Listing :=
  if text = "localhost".toList then some (.address (.v6 1))
  else
    match reading.parseIpAddr text with
    | some address => some (.address address)
    | none => (reading.parseIpCidr text).map .network

/-- An address is listed by a text. -/
def ListedBy (reading : Reading) (ip : IpAddr) (text : Str) : Prop :=
  ∃ listing, reading.listing text = some listing ∧ listing.Lists ip

/-- An address is listed by a text, other than as an IPv4-mapped network. -/
def PlainlyListedBy (reading : Reading) (ip : IpAddr) (text : Str) : Prop :=
  ∃ listing, reading.listing text = some listing ∧ listing.Lists ip ∧ ¬listing.IsMappedNetwork

end IpBlockList

/-! ## Addresses and networks -/

namespace IpCidr

/-- A network that is not IPv4-mapped is in canonical form. -/
theorem toCanonical_of_not_mapped {cidr : IpCidr} (h : cidr.isMapped = false) :
    cidr.toCanonical = cidr := by
  rw [toCanonical, h, if_neg Bool.false_ne_true]

/-- An IPv4-mapped network, as it is written, has no canonical address in it: the IPv4 addresses are of
another kind, and the other IPv6 addresses lie outside. -/
theorem contains_of_mapped {cidr : IpCidr} (h : cidr.isMapped = true) (ip : IpAddr) :
    cidr.contains ip.toCanonical = false := by
  obtain ⟨address, networkLength⟩ := cidr
  cases address with
  -- an IPv4 network is not mapped
  | v4 network => exact absurd h Bool.false_ne_true
  | v6 network =>
      rw [isMapped, Bool.and_eq_true, decide_eq_true_eq, beq_iff_eq] at h
      obtain ⟨hlength, hnetwork⟩ := h
      cases ip with
      | v4 address => rfl
      | v6 address =>
          rw [IpAddr.toCanonical]
          split
          · rfl
          · rename_i haddress
            change (network >>> (128 - networkLength.toNat) ==
              address >>> (128 - networkLength.toNat)) = false
            rw [beq_eq_false_iff_ne]
            intro hsame
            -- an address that agrees with the network on so many bits is IPv4-mapped too
            apply haddress
            have hshifted : ∀ x : BitVec 128, x >>> 32 =
                x >>> (128 - networkLength.toNat) >>> (32 - (128 - networkLength.toNat)) := by
              intro x
              have hsum : 128 - networkLength.toNat + (32 - (128 - networkLength.toNat)) = 32 := by
                dsimp only at hlength
                omega
              rw [← BitVec.shiftRight_add, hsum]
            rw [hshifted, ← hsame, ← hshifted, hnetwork]

end IpCidr

/-! ## What is loaded -/

theorem HashSet.mem_insert {α : Type} [DecidableEq α] {order : HashSet.TableOrder α} {s : HashSet α}
    {x y : α} : y ∈ (s.insert order x).iter ↔ y ∈ s.iter ∨ y = x := by
  rw [HashSet.insert]
  split
  · rename_i hx
    constructor
    · exact .inl
    · rintro (hy | rfl)
      · exact hy
      · exact hx
  · rw [(order.perm _).mem_iff, List.mem_cons, or_comm]

namespace IpBlockList

variable {reading : Reading} {table : Nat} {list : IpBlockList} {ip : IpAddr}

/-- `is_blocked` finds the client among the canonical addresses and in the networks as they are written. -/
theorem isBlocked_iff :
    list.isBlocked ip = true ↔
      ip.toCanonical ∈ list.blockedIps.iter ∨
        ∃ cidr ∈ list.blockedCidrs.iter, cidr.contains ip.toCanonical = true := by
  rw [isBlocked, Bool.or_eq_true, HashSet.contains, List.contains_iff_mem, List.any_eq_true]

/-- A network lists a client as it is written, if and only if it is not IPv4-mapped and lists it. -/
theorem contains_iff_lists (cidr : IpCidr) :
    cidr.contains ip.toCanonical = true ↔
      (Listing.network cidr).Lists ip ∧ ¬(Listing.network cidr).IsMappedNetwork := by
  rw [Listing.Lists, Listing.IsMappedNetwork]
  cases hmapped : cidr.isMapped with
  | true => simp [IpCidr.contains_of_mapped hmapped]
  | false => simp [IpCidr.toCanonical_of_not_mapped hmapped]

/-- One more text. -/
theorem isBlocked_loadOne (text : Str) :
    (loadOne reading table list text).isBlocked ip = true ↔
      list.isBlocked ip = true ∨ PlainlyListedBy reading ip text := by
  rw [loadOne, PlainlyListedBy, Reading.listing]
  by_cases hlocalhost : text = "localhost".toList
  · rw [if_pos hlocalhost, if_pos hlocalhost]
    simp only [isBlocked_iff, HashSet.mem_insert, Option.some.injEq, exists_eq_left', Listing.Lists,
      Listing.IsMappedNetwork, not_false_eq_true, and_true]
    -- the loopback address is in canonical form
    rw [show (IpAddr.v6 1).toCanonical = .v6 1 from by decide]
    constructor
    · rintro ((hold | hnew) | hcidr)
      · exact .inl (.inl hold)
      · exact .inr hnew.symm
      · exact .inl (.inr hcidr)
    · rintro ((hold | hcidr) | hnew)
      · exact .inl (.inl hold)
      · exact .inr hcidr
      · exact .inl (.inr hnew.symm)
  · rw [if_neg hlocalhost, if_neg hlocalhost]
    -- a text is read as an address first, and as a network otherwise
    cases hparsed : reading.parseIpAddr text with
    | some address =>
        simp only [isBlocked_iff, HashSet.mem_insert, Option.some.injEq, exists_eq_left',
          Listing.Lists, Listing.IsMappedNetwork, not_false_eq_true, and_true]
        constructor
        · rintro ((hold | hnew) | hcidr)
          · exact .inl (.inl hold)
          · exact .inr hnew.symm
          · exact .inl (.inr hcidr)
        · rintro ((hold | hcidr) | hnew)
          · exact .inl (.inl hold)
          · exact .inr hcidr
          · exact .inl (.inr hnew.symm)
    | none =>
        cases hcidr : reading.parseIpCidr text with
        | none => simp
        | some cidr =>
            dsimp only
            rw [Option.map_some]
            simp only [Option.some.injEq, exists_eq_left', ← contains_iff_lists, isBlocked_iff,
              HashSet.mem_insert, or_and_right, exists_or, exists_eq_left, or_assoc]

/-- A loaded list has the clients that are listed by a text, other than as an IPv4-mapped network. -/
theorem isBlocked_loadFromVec (ips : List Str) :
    (list.loadFromVec reading table ips).isBlocked ip = true ↔
      list.isBlocked ip = true ∨ ∃ text ∈ ips, PlainlyListedBy reading ip text := by
  induction ips generalizing list with
  | nil => simp [loadFromVec]
  | cons text ips ih =>
      rw [loadFromVec, List.foldl_cons, ← loadFromVec, ih, isBlocked_loadOne, or_assoc]
      simp

theorem isBlocked_new : (new : IpBlockList).isBlocked ip = false := rfl

/-- A list that is loaded has the clients that are listed, if and only if no IPv4-mapped network lists the
client, or another text lists it too. -/
theorem isBlocked_listed_iff (reading : Reading) (table : Nat) (ips : List Str) (ip : IpAddr) :
    ((new.loadFromVec reading table ips).isBlocked ip = true ↔ ∃ text ∈ ips, ListedBy reading ip text) ↔
      ((∃ text ∈ ips, ∃ cidr, reading.listing text = some (.network cidr) ∧ cidr.isMapped = true ∧
          cidr.toCanonical.contains ip.toCanonical = true) →
        ∃ text ∈ ips, PlainlyListedBy reading ip text) := by
  have hloaded : (new.loadFromVec reading table ips).isBlocked ip = true ↔
      ∃ text ∈ ips, PlainlyListedBy reading ip text := by
    rw [isBlocked_loadFromVec, isBlocked_new]
    simp
  rw [hloaded]
  constructor
  · -- the mapped network lists the client, so the list must have it for another reason
    rintro hsame ⟨text, htext, cidr, hlisting, -, hcontains⟩
    exact hsame.2 ⟨text, htext, _, hlisting, hcontains⟩
  · intro hcondition
    constructor
    · rintro ⟨text, htext, listing, hlisting, hlists, -⟩
      exact ⟨text, htext, listing, hlisting, hlists⟩
    · rintro ⟨text, htext, listing, hlisting, hlists⟩
      -- what lists the client is found, unless it is an IPv4-mapped network
      by_cases hmapped : listing.IsMappedNetwork
      · cases listing with
        | address address => exact absurd hmapped id
        | network cidr => exact hcondition ⟨text, htext, cidr, hlisting, hmapped, hlists⟩
      · exact ⟨text, htext, listing, hlisting, hlists, hmapped⟩

/-- Reads the network `::ffff:10.0.0.0/104`. -/
def mappedReading : Reading where
  parseIpAddr _ := none
  parseIpCidr text :=
    if text = "::ffff:10.0.0.0/104".toList then some ⟨.v6 0xffff0a000000, 104⟩ else none
  ipOrder _ := ⟨id, List.Perm.refl⟩
  cidrOrder _ := ⟨id, List.Perm.refl⟩

/-- The network lists `10.0.0.1`, but `is_blocked` does not find it. -/
theorem isBlocked_mappedNetwork :
    (new.loadFromVec mappedReading 0 ["::ffff:10.0.0.0/104".toList]).isBlocked (.v4 0x0a000001) = false ∧
      ∃ text ∈ ["::ffff:10.0.0.0/104".toList], ListedBy mappedReading (.v4 0x0a000001) text :=
  ⟨by decide, _, List.mem_singleton_self _, .network ⟨.v6 0xffff0a000000, 104⟩, by decide, by decide⟩

end IpBlockList

end Ferron.Common
