import Mathlib.Data.List.TakeWhile
import Ferron.Common.IpBlockList
import Ferron.Lib.Reader
import Ferron.Rust.Text

/-!
# Addresses that are parsed

The parser of the standard library for IP addresses, and for these with a port. It goes back where it fails,
so an IPv6 address may have an IPv4 address at its end.

An IPv6 address has at least two colons (`two_le_count_of_parseIpAddr`), and what comes behind the delimiter
of an address does not matter to the parser (`stops_readIpv4Addr`, `stops_readIpv6Addr`). So an address with a
port is split where one expects it (`of_parseSocketAddr`, `of_parseSocketAddr_brackets`).
-/

set_option autoImplicit false

namespace Ferron.Rust.Net

open Ferron.Common
open Ferron.Lib

/-- `Parser`. -/
abbrev Parser (α : Type) : Type := Reader Char α

/-- `to_digit`. -/
def toDigit (radix : Nat) (c : Char) : Option Nat :=
  let digit :=
    if c.isDigit then c.toNat - '0'.toNat
    else if c.isLower then c.toNat - 'a'.toNat + 10
    else if c.isUpper then c.toNat - 'A'.toNat + 10
    else radix
  if digit < radix then some digit else none

/-- The number that some digits stand for. -/
def digitsValue (radix : Nat) (digits : Str) : Nat :=
  digits.foldl (fun n c => radix * n + (toDigit radix c).getD 0) 0

/-- `read_given_char`. -/
def readGivenChar (target : Char) : Parser Unit := fun input =>
  match input with
  | c :: rest => if c = target then some ((), rest) else none
  | [] => none

/-- `read_separator`. -/
def readSeparator {α : Type} (separator : Char) (index : Nat) (inner : Parser α) : Parser α :=
  if 0 < index then do
    readGivenChar separator
    inner
  else inner

/-- `read_number`, for numbers below a bound. -/
def readNumber (radix : Nat) (maxDigits : Option Nat) (allowZeroPrefix : Bool) (bound : Nat) :
    Parser Nat := fun input =>
  let digits := input.takeWhile fun c => (toDigit radix c).isSome
  if maxDigits.any (· < digits.length) then none
  -- the partial results only grow, so that one of them is too large when the last one is
  else if bound ≤ digitsValue radix digits then none
  else if digits = [] then none
  else if !allowZeroPrefix && digits.head? = some '0' && 1 < digits.length then none
  else some (digitsValue radix digits, input.drop digits.length)

/-- `read_ipv4_addr`. -/
def readIpv4Addr : Parser (BitVec 32) := do
  let first ← readSeparator '.' 0 (readNumber 10 (some 3) false (2 ^ 8))
  let second ← readSeparator '.' 1 (readNumber 10 (some 3) false (2 ^ 8))
  let third ← readSeparator '.' 2 (readNumber 10 (some 3) false (2 ^ 8))
  let fourth ← readSeparator '.' 3 (readNumber 10 (some 3) false (2 ^ 8))
  pure (BitVec.ofNat 32 (((first * 2 ^ 8 + second) * 2 ^ 8 + third) * 2 ^ 8 + fourth))

/-- `read_groups`, for so many groups that remain behind those that have been read. -/
def readGroups (limit : Nat) : Nat → List Nat → Parser (List Nat × Bool)
  | 0, groups => pure (groups, false)
  | remaining + 1, groups => do
      let ipv4 ← (if groups.length < limit - 1 then
        readSeparator ':' groups.length readIpv4Addr else Reader.fail).optional
      match ipv4 with
      | some v4Addr => pure (groups ++ [v4Addr.toNat / 2 ^ 16, v4Addr.toNat % 2 ^ 16], true)
      | none => do
          let group ← (readSeparator ':' groups.length (readNumber 16 (some 4) true (2 ^ 16))).optional
          match group with
          | some g => readGroups limit remaining (groups ++ [g])
          | none => pure (groups, false)

/-- The address with these segments. -/
def ofSegments (segments : List Nat) : BitVec 128 :=
  BitVec.ofNat 128 (segments.foldl (fun n segment => 2 ^ 16 * n + segment) 0)

/-- `read_ipv6_addr`. -/
def readIpv6Addr : Parser (BitVec 128) := do
  let (head, headIpv4) ← readGroups 8 8 []
  if head.length = 8 then pure (ofSegments head)
  else if headIpv4 then Reader.fail
  else do
    readGivenChar ':'
    readGivenChar ':'
    let limit := 8 - (head.length + 1)
    let (tail, _) ← readGroups limit limit []
    pure (ofSegments (head ++ List.replicate (8 - head.length - tail.length) 0 ++ tail))

/-- `read_ip_addr`. -/
def readIpAddr : Parser IpAddr :=
  Reader.orElse (do let ip ← readIpv4Addr; pure (.v4 ip)) (do let ip ← readIpv6Addr; pure (.v6 ip))

/-- `read_port`. -/
def readPort : Parser UInt16 := do
  readGivenChar ':'
  let port ← readNumber 10 none true (2 ^ 16)
  pure (UInt16.ofNat port)

/-- `read_scope_id`. -/
def readScopeId : Parser Nat := do
  readGivenChar '%'
  readNumber 10 none true (2 ^ 32)

/-- `read_socket_addr_v4`. -/
def readSocketAddrV4 : Parser (IpAddr × UInt16) := do
  let ip ← readIpv4Addr
  let port ← readPort
  pure (.v4 ip, port)

/-- `read_socket_addr_v6`. The address that is taken out of it later has no scope. -/
def readSocketAddrV6 : Parser (IpAddr × UInt16) := do
  readGivenChar '['
  let ip ← readIpv6Addr
  let _ ← readScopeId.optional
  readGivenChar ']'
  let port ← readPort
  pure (.v6 ip, port)

/-- `parse::<IpAddr>`. -/
def parseIpAddr (s : Str) : Option IpAddr := readIpAddr.readAll s

/-- `parse::<SocketAddr>`, with its `ip` and `port`. -/
def parseSocketAddr (s : Str) : Option (IpAddr × UInt16) :=
  (readSocketAddrV4.orElse readSocketAddrV6).readAll s

/-! ## Delimiters -/

section Stops

variable {delimiter : Char}

theorem stops_readGivenChar {target : Char} (h : delimiter ≠ target) :
    Reader.Stops delimiter (readGivenChar target) := by
  intro front back
  cases front with
  | nil =>
      rw [List.nil_append, readGivenChar]
      exact if_neg h
  | cons c front =>
      rw [List.cons_append, readGivenChar, readGivenChar]
      split
      · rfl
      · rfl

theorem stops_readSeparator {α : Type} {separator : Char} {inner : Parser α} (h : delimiter ≠ separator)
    (hinner : Reader.Stops delimiter inner) (index : Nat) :
    Reader.Stops delimiter (readSeparator separator index inner) := by
  unfold readSeparator
  split
  · exact (stops_readGivenChar h).bind fun _ => hinner
  · exact hinner

theorem stops_readNumber {radix : Nat} (h : toDigit radix delimiter = none) (maxDigits : Option Nat)
    (allowZeroPrefix : Bool) (bound : Nat) :
    Reader.Stops delimiter (readNumber radix maxDigits allowZeroPrefix bound) := by
  intro front back
  have hdigits : (front ++ delimiter :: back).takeWhile (fun c => (toDigit radix c).isSome) =
      front.takeWhile fun c => (toDigit radix c).isSome := by
    rw [List.takeWhile_append]
    split
    · next hall =>
        rw [List.takeWhile_cons_of_neg (by simp [h]), List.append_nil]
        exact ((List.takeWhile_prefix _).eq_of_length hall).symm
    · rfl
  have hdrop : (front ++ delimiter :: back).drop
      (front.takeWhile fun c => (toDigit radix c).isSome).length =
        front.drop (front.takeWhile fun c => (toDigit radix c).isSome).length ++ delimiter :: back :=
    List.drop_append_of_le_length (List.takeWhile_prefix _).length_le
  unfold readNumber
  dsimp only
  rw [hdigits, hdrop]
  split
  · rfl
  · split
    · rfl
    · split
      · rfl
      · split
        · rfl
        · rfl

theorem stops_readIpv4Addr (hdigit : toDigit 10 delimiter = none) (hdot : delimiter ≠ '.') :
    Reader.Stops delimiter readIpv4Addr := by
  have hoctet := stops_readSeparator hdot (stops_readNumber hdigit (some 3) false (2 ^ 8))
  exact (hoctet 0).bind fun _ => (hoctet 1).bind fun _ => (hoctet 2).bind fun _ =>
    (hoctet 3).bind fun _ => .pure _

theorem stops_readGroups (hdigit : toDigit 10 delimiter = none) (hhex : toDigit 16 delimiter = none)
    (hdot : delimiter ≠ '.') (hcolon : delimiter ≠ ':') (limit remaining : Nat) (groups : List Nat) :
    Reader.Stops delimiter (readGroups limit remaining groups) := by
  induction remaining generalizing groups with
  | zero => exact .pure _
  | succ remaining ih =>
      have hipv4 : Reader.Stops delimiter (if groups.length < limit - 1 then
          readSeparator ':' groups.length readIpv4Addr else Reader.fail) := by
        split
        · exact stops_readSeparator hcolon (stops_readIpv4Addr hdigit hdot) _
        · exact .fail
      have hgroup := stops_readSeparator hcolon (stops_readNumber hhex (some 4) true (2 ^ 16))
        groups.length
      refine hipv4.optional.bind fun ipv4 => ?_
      cases ipv4 with
      | some v4Addr => exact .pure _
      | none =>
          refine hgroup.optional.bind fun group => ?_
          cases group with
          | some g => exact ih _
          | none => exact .pure _

theorem stops_readIpv6Addr (hdigit : toDigit 10 delimiter = none) (hhex : toDigit 16 delimiter = none)
    (hdot : delimiter ≠ '.') (hcolon : delimiter ≠ ':') : Reader.Stops delimiter readIpv6Addr := by
  refine (stops_readGroups hdigit hhex hdot hcolon 8 8 []).bind fun head => ?_
  dsimp only
  split
  · exact .pure _
  · split
    · exact .fail
    · have htail := stops_readGroups hdigit hhex hdot hcolon (8 - (head.1.length + 1))
        (8 - (head.1.length + 1)) []
      exact (stops_readGivenChar hcolon).bind fun _ => (stops_readGivenChar hcolon).bind fun _ =>
        htail.bind fun _ => .pure _

end Stops

/-! ## Characters -/

/-- A character of an address: a hexadecimal digit, a dot or a colon. -/
def IsAddressChar (c : Char) : Prop := (toDigit 16 c).isSome = true ∨ c = '.' ∨ c = ':'

instance (c : Char) : Decidable (IsAddressChar c) := inferInstanceAs (Decidable (_ ∨ _))

theorem toDigit_of_isDigit {radix : Nat} (hradix : 10 ≤ radix) {c : Char} (h : c.isDigit = true) :
    toDigit radix c = some (c.toNat - '0'.toNat) := by
  have hbounds : 48 ≤ c.toNat ∧ c.toNat < 58 := by
    simp only [Char.isDigit, Bool.and_eq_true, decide_eq_true_eq, UInt32.le_iff_toNat_le] at h
    exact ⟨h.1, Nat.lt_succ_of_le h.2⟩
  have hlt : c.toNat - '0'.toNat < radix := by
    change c.toNat - 48 < radix
    omega
  unfold toDigit
  dsimp only
  rw [if_pos h, if_pos hlt]

theorem isSome_toDigit_ten (c : Char) : (toDigit 10 c).isSome = c.isDigit := by
  cases hdigit : c.isDigit with
  | true => rw [toDigit_of_isDigit (Nat.le_refl _) hdigit, Option.isSome_some]
  | false =>
      have hnot : ¬ (if c.isLower = true then c.toNat - 'a'.toNat + 10
          else if c.isUpper = true then c.toNat - 'A'.toNat + 10 else 10) < 10 := by
        split
        · omega
        · split
          · omega
          · omega
      unfold toDigit
      dsimp only
      rw [hdigit, if_neg Bool.false_ne_true, if_neg hnot, Option.isSome_none]

/-- A character of an IPv4 address: a digit or a dot. -/
def IsIpv4Char (c : Char) : Prop := c.isDigit = true ∨ c = '.'

theorem IsIpv4Char.isAddressChar {c : Char} (h : IsIpv4Char c) : IsAddressChar c := by
  rcases h with hdigit | hdot
  · left
    rw [toDigit_of_isDigit (by decide) hdigit, Option.isSome_some]
  · exact .inr (.inl hdot)

/-! ## What is taken -/

theorem takes_readGivenChar (target : Char) :
    Reader.Takes (readGivenChar target) fun taken _ => taken = [target] := by
  intro input _ rest h
  cases input with
  | nil => exact absurd h (by simp [readGivenChar])
  | cons c input =>
      rw [readGivenChar] at h
      split at h
      · next hc =>
          obtain ⟨-, rfl⟩ := Prod.mk.inj (Option.some.inj h)
          exact ⟨[c], rfl, by rw [hc]⟩
      · exact absurd h (by simp)

/-- A number is written in digits. -/
theorem takes_readNumber (radix : Nat) (maxDigits : Option Nat) (allowZeroPrefix : Bool) (bound : Nat) :
    Reader.Takes (readNumber radix maxDigits allowZeroPrefix bound) fun taken n =>
      (∀ c ∈ taken, (toDigit radix c).isSome = true) ∧ taken ≠ [] ∧ n = digitsValue radix taken ∧
        n < bound := by
  intro input n rest h
  unfold readNumber at h
  dsimp only at h
  split at h
  · exact absurd h (by simp)
  · split at h
    · exact absurd h (by simp)
    · next hbound =>
        split at h
        · exact absurd h (by simp)
        · next hne =>
            split at h
            · exact absurd h (by simp)
            · obtain ⟨rfl, rfl⟩ := Prod.mk.inj (Option.some.inj h)
              refine ⟨input.takeWhile fun c => (toDigit radix c).isSome, ?_, ?_, hne, rfl, ?_⟩
              · exact (List.prefix_iff_eq_append.1 (List.takeWhile_prefix _)).symm
              · exact fun c hc => by
                  simpa using List.mem_takeWhile_imp (p := fun c => (toDigit radix c).isSome) hc
              · exact Nat.lt_of_not_le hbound

theorem takes_readSeparator {α : Type} {inner : Parser α} {P : Char → Prop} {separator : Char}
    (h : Reader.Takes inner fun taken _ => ∀ c ∈ taken, P c) (hseparator : P separator) (index : Nat) :
    Reader.Takes (readSeparator separator index inner) fun taken _ =>
      (∀ c ∈ taken, P c) ∧ (0 < index → 1 ≤ taken.count separator) := by
  unfold readSeparator
  split
  · refine (takes_readGivenChar separator).bind (fun _ => h) ?_
    rintro _ _ back _ rfl hback
    refine ⟨List.forall_mem_cons.2 ⟨hseparator, hback⟩, fun _ => ?_⟩
    exact List.one_le_count_iff.2 List.mem_cons_self
  · next hindex => exact h.mono fun taken _ htaken => ⟨htaken, fun hpos => absurd hpos hindex⟩

theorem takes_readIpv4Addr : Reader.Takes readIpv4Addr fun taken _ => ∀ c ∈ taken, IsIpv4Char c := by
  have hoctet : ∀ index, Reader.Takes (readSeparator '.' index (readNumber 10 (some 3) false (2 ^ 8)))
      fun taken _ => ∀ c ∈ taken, IsIpv4Char c := by
    intro index
    have hnumber : Reader.Takes (readNumber 10 (some 3) false (2 ^ 8)) fun taken _ =>
        ∀ c ∈ taken, IsIpv4Char c :=
      (takes_readNumber 10 (some 3) false (2 ^ 8)).mono fun taken _ htaken c hc =>
        .inl (by rw [← isSome_toDigit_ten]; exact htaken.1 c hc)
    exact (takes_readSeparator hnumber (.inr rfl) index).mono fun _ _ htaken => htaken.1
  have hboth : ∀ {front back : Str}, (∀ c ∈ front, IsIpv4Char c) → (∀ c ∈ back, IsIpv4Char c) →
      ∀ c ∈ front ++ back, IsIpv4Char c := fun hfront hback => List.forall_mem_append.2 ⟨hfront, hback⟩
  refine (hoctet 0).bind (fun first => ?_) fun _ _ _ _ => hboth
  refine (hoctet 1).bind (fun second => ?_) fun _ _ _ _ => hboth
  refine (hoctet 2).bind (fun third => ?_) fun _ _ _ _ => hboth
  refine (hoctet 3).bind (fun fourth => ?_) fun _ _ _ _ => hboth
  exact .pure fun c hc => absurd hc List.not_mem_nil

/-- What has been taken for some groups has a colon for at most two of them, except for the first ones. -/
def GroupsTaken (groups : List Nat) (taken : Str) (result : List Nat × Bool) : Prop :=
  (∀ c ∈ taken, IsAddressChar c) ∧
    result.1.length ≤ groups.length + 2 * taken.count ':' + if groups = [] then 2 else 0

theorem takes_readGroups (limit remaining : Nat) (groups : List Nat) :
    Reader.Takes (readGroups limit remaining groups) (GroupsTaken groups) := by
  induction remaining generalizing groups with
  | zero =>
      refine .pure ⟨fun c hc => absurd hc List.not_mem_nil, ?_⟩
      dsimp only
      omega
  | succ remaining ih =>
      have hcolon : IsAddressChar ':' := .inr (.inr rfl)
      have htakesIpv4 : Reader.Takes (if groups.length < limit - 1 then
          readSeparator ':' groups.length readIpv4Addr else Reader.fail) fun taken _ =>
            (∀ c ∈ taken, IsAddressChar c) ∧ (0 < groups.length → 1 ≤ taken.count ':') := by
        split
        · refine takes_readSeparator (takes_readIpv4Addr.mono fun taken _ htaken c hc => ?_) hcolon _
          exact (htaken c hc).isAddressChar
        · exact .fail
      have htakesNumber : Reader.Takes (readNumber 16 (some 4) true (2 ^ 16)) fun taken _ =>
          ∀ c ∈ taken, IsAddressChar c :=
        (takes_readNumber 16 (some 4) true (2 ^ 16)).mono fun taken _ htaken c hc => .inl (htaken.1 c hc)
      have htakesGroup := takes_readSeparator htakesNumber hcolon groups.length
      have hlength : groups ≠ [] → 0 < groups.length := List.length_pos_iff.2
      intro input result rest hread
      obtain ⟨ipv4, middle, hipv4, hnext⟩ := Reader.bind_eq_some_iff.1 hread
      clear hread
      obtain ⟨front, rfl, hfront⟩ := htakesIpv4.optional input ipv4 middle hipv4
      cases ipv4 with
      | some v4Addr =>
          obtain ⟨rfl, rfl⟩ := Prod.mk.inj (Option.some.inj hnext)
          refine ⟨front, rfl, hfront.1, ?_⟩
          have hcount := hfront.2
          simp only [List.length_append, List.length_cons, List.length_nil]
          split
          · omega
          · next hne =>
              have hone := hcount (hlength hne)
              omega
      | none =>
          have hnil : front = [] := hfront
          subst hnil
          obtain ⟨group, last, hgroup, hlast⟩ := Reader.bind_eq_some_iff.1 hnext
          clear hnext hipv4
          obtain ⟨front, rfl, hfront⟩ := htakesGroup.optional middle group last hgroup
          cases group with
          | none =>
              have hnil : front = [] := hfront
              subst hnil
              obtain ⟨rfl, rfl⟩ := Prod.mk.inj (Option.some.inj hlast)
              exact ⟨[], rfl, fun c hc => absurd hc List.not_mem_nil, by dsimp only; omega⟩
          | some g =>
              obtain ⟨back, rfl, hback⟩ := ih (groups ++ [g]) last result rest hlast
              refine ⟨front ++ back, by rw [List.nil_append, List.append_assoc],
                List.forall_mem_append.2 ⟨hfront.1, hback.1⟩, ?_⟩
              have hgroups := hback.2
              have hcount := hfront.2
              rw [if_neg (by simp), List.length_append] at hgroups
              simp only [List.length_cons, List.length_nil] at hgroups
              rw [List.count_append]
              split
              · omega
              · next hne =>
                  have hone := hcount (hlength hne)
                  omega

/-- An IPv6 address has at least two colons. -/
theorem takes_readIpv6Addr : Reader.Takes readIpv6Addr fun taken _ =>
    (∀ c ∈ taken, IsAddressChar c) ∧ 2 ≤ taken.count ':' := by
  intro input address rest hread
  obtain ⟨⟨head, headIpv4⟩, middle, hhead, hnext⟩ := Reader.bind_eq_some_iff.1 hread
  clear hread
  obtain ⟨front, rfl, hfront⟩ := takes_readGroups 8 8 [] input (head, headIpv4) middle hhead
  dsimp only at hnext
  split at hnext
  · next hlength =>
      obtain ⟨-, rfl⟩ := Prod.mk.inj (Option.some.inj hnext)
      refine ⟨front, rfl, hfront.1, ?_⟩
      have hgroups := hfront.2
      rw [if_pos rfl, List.length_nil, hlength] at hgroups
      omega
  · split at hnext
    · exact absurd hnext (by simp [Reader.fail])
    · obtain ⟨_, second, hfirst, hnext⟩ := Reader.bind_eq_some_iff.1 hnext
      obtain ⟨_, third, hsecond, hnext⟩ := Reader.bind_eq_some_iff.1 hnext
      obtain ⟨tail, last, htail, hlast⟩ := Reader.bind_eq_some_iff.1 hnext
      obtain ⟨_, hmiddle, rfl⟩ := takes_readGivenChar ':' middle _ second hfirst
      obtain ⟨_, hinner, rfl⟩ := takes_readGivenChar ':' second _ third hsecond
      obtain ⟨back, hthird, hback⟩ := takes_readGroups _ _ [] third tail last htail
      obtain ⟨-, rfl⟩ := Prod.mk.inj (Option.some.inj hlast)
      have hcolon : IsAddressChar ':' := .inr (.inr rfl)
      refine ⟨front ++ ':' :: ':' :: back, by simp [hmiddle, hinner, hthird], ?_, ?_⟩
      · refine List.forall_mem_append.2 ⟨hfront.1, ?_⟩
        exact List.forall_mem_cons.2 ⟨hcolon, List.forall_mem_cons.2 ⟨hcolon, hback.1⟩⟩
      · rw [List.count_append, List.count_cons_self, List.count_cons_self]
        omega

theorem takes_readPort : Reader.Takes readPort fun taken _ => ':' ∈ taken := by
  intro input port rest hread
  obtain ⟨_, middle, hcolon, hnext⟩ := Reader.bind_eq_some_iff.1 hread
  obtain ⟨n, last, hnumber, hlast⟩ := Reader.bind_eq_some_iff.1 hnext
  obtain ⟨_, hinput, rfl⟩ := takes_readGivenChar ':' input _ middle hcolon
  obtain ⟨digits, hmiddle, -⟩ := takes_readNumber 10 none true (2 ^ 16) middle n last hnumber
  obtain ⟨-, rfl⟩ := Prod.mk.inj (Option.some.inj hlast)
  exact ⟨':' :: digits, by rw [hinput, hmiddle]; rfl, List.mem_cons_self⟩

theorem takes_readSocketAddrV4 : Reader.Takes readSocketAddrV4 fun taken _ => ':' ∈ taken := by
  intro input result rest hread
  obtain ⟨ip, middle, hip, hnext⟩ := Reader.bind_eq_some_iff.1 hread
  obtain ⟨port, last, hport, hlast⟩ := Reader.bind_eq_some_iff.1 hnext
  obtain ⟨front, hinput, -⟩ := takes_readIpv4Addr input ip middle hip
  obtain ⟨back, hmiddle, hback⟩ := takes_readPort middle port last hport
  obtain ⟨-, rfl⟩ := Prod.mk.inj (Option.some.inj hlast)
  exact ⟨front ++ back, by rw [hinput, hmiddle, List.append_assoc], List.mem_append_right _ hback⟩

theorem takes_readSocketAddrV6 :
    Reader.Takes readSocketAddrV6 fun taken _ => 2 ≤ taken.count ':' := by
  intro input result rest hread
  obtain ⟨_, second, hopen, hnext⟩ := Reader.bind_eq_some_iff.1 hread
  obtain ⟨ip, third, hip, hnext⟩ := Reader.bind_eq_some_iff.1 hnext
  obtain ⟨scope, fourth, hscope, hnext⟩ := Reader.bind_eq_some_iff.1 hnext
  obtain ⟨_, fifth, hclose, hnext⟩ := Reader.bind_eq_some_iff.1 hnext
  obtain ⟨port, last, hport, hlast⟩ := Reader.bind_eq_some_iff.1 hnext
  have hreadScope : Reader.Takes readScopeId fun _ _ => True :=
    (takes_readGivenChar '%').bind (Q := fun _ _ _ => True)
      (fun _ => (takes_readNumber 10 none true (2 ^ 32)).mono fun _ _ _ => trivial)
      fun _ _ _ _ _ _ => trivial
  obtain ⟨_, hinput, rfl⟩ := takes_readGivenChar '[' input _ second hopen
  obtain ⟨address, hsecond, -, haddress⟩ := takes_readIpv6Addr second ip third hip
  obtain ⟨zone, hthird, -⟩ := hreadScope.optional third scope fourth hscope
  obtain ⟨_, hfourth, rfl⟩ := takes_readGivenChar ']' fourth _ fifth hclose
  obtain ⟨back, hfifth, -⟩ := takes_readPort fifth port last hport
  obtain ⟨-, rfl⟩ := Prod.mk.inj (Option.some.inj hlast)
  refine ⟨'[' :: (address ++ (zone ++ ']' :: back)), ?_, ?_⟩
  · rw [hinput, hsecond, hthird, hfourth, hfifth]
    simp
  · dsimp only
    rw [List.count_cons, List.count_append]
    omega

/-! ## Addresses and socket addresses -/

theorem of_parseIpAddr_v4 {s : Str} {address : BitVec 32} (h : parseIpAddr s = some (.v4 address)) :
    readIpv4Addr s = some (address, []) := by
  rcases Option.or_eq_some_iff.1 (Reader.readAll_eq_some_iff.1 h) with hv4 | ⟨-, hv6⟩
  · obtain ⟨ip, middle, hip, hlast⟩ := Reader.bind_eq_some_iff.1 hv4
    obtain ⟨haddress, rfl⟩ := Prod.mk.inj (Option.some.inj hlast)
    rw [hip, IpAddr.v4.inj haddress]
  · obtain ⟨ip, middle, hip, hlast⟩ := Reader.bind_eq_some_iff.1 hv6
    nomatch (Prod.mk.inj (Option.some.inj hlast)).1

theorem of_parseIpAddr_v6 {s : Str} {address : BitVec 128} (h : parseIpAddr s = some (.v6 address)) :
    readIpv6Addr s = some (address, []) := by
  rcases Option.or_eq_some_iff.1 (Reader.readAll_eq_some_iff.1 h) with hv4 | ⟨-, hv6⟩
  · obtain ⟨ip, middle, hip, hlast⟩ := Reader.bind_eq_some_iff.1 hv4
    nomatch (Prod.mk.inj (Option.some.inj hlast)).1
  · obtain ⟨ip, middle, hip, hlast⟩ := Reader.bind_eq_some_iff.1 hv6
    obtain ⟨haddress, rfl⟩ := Prod.mk.inj (Option.some.inj hlast)
    rw [hip, IpAddr.v6.inj haddress]

theorem parseIpAddr_of_readIpv4Addr {s : Str} {address : BitVec 32}
    (h : readIpv4Addr s = some (address, [])) : parseIpAddr s = some (.v4 address) := by
  refine Reader.readAll_eq_some_iff.2 (Option.or_eq_some_iff.2 (.inl ?_))
  exact Reader.bind_eq_some_iff.2 ⟨address, [], h, rfl⟩

/-- An IPv4 address is written in digits and dots. -/
theorem isIpv4Char_of_parseIpAddr {s : Str} {address : BitVec 32}
    (h : parseIpAddr s = some (.v4 address)) : ∀ c ∈ s, IsIpv4Char c := by
  obtain ⟨taken, hs, htaken⟩ := takes_readIpv4Addr s address [] (of_parseIpAddr_v4 h)
  rw [hs, List.append_nil]
  exact htaken

theorem isAddressChar_of_parseIpAddr {s : Str} {address : BitVec 128}
    (h : parseIpAddr s = some (.v6 address)) : ∀ c ∈ s, IsAddressChar c := by
  obtain ⟨taken, hs, htaken, -⟩ := takes_readIpv6Addr s address [] (of_parseIpAddr_v6 h)
  rw [hs, List.append_nil]
  exact htaken

theorem two_le_count_of_parseIpAddr {s : Str} {address : BitVec 128}
    (h : parseIpAddr s = some (.v6 address)) : 2 ≤ s.count ':' := by
  obtain ⟨taken, hs, -, htaken⟩ := takes_readIpv6Addr s address [] (of_parseIpAddr_v6 h)
  rw [hs, List.append_nil]
  exact htaken

/-- A socket address has a colon before its port. -/
theorem colon_mem_of_parseSocketAddr {s : Str} {result : IpAddr × UInt16}
    (h : parseSocketAddr s = some result) : ':' ∈ s := by
  rcases Option.or_eq_some_iff.1 (Reader.readAll_eq_some_iff.1 h) with hv4 | ⟨-, hv6⟩
  · obtain ⟨taken, rfl, htaken⟩ := takes_readSocketAddrV4 s result [] hv4
    exact List.mem_append_left _ htaken
  · obtain ⟨taken, rfl, htaken⟩ := takes_readSocketAddrV6 s result [] hv6
    exact List.mem_append_left _ (List.one_le_count_iff.1 (Nat.le_of_succ_le htaken))

/-- A port is a number in digits. -/
theorem of_readPort {port : Str} {n : UInt16} (h : readPort (':' :: port) = some (n, [])) :
    (∀ c ∈ port, c.isDigit = true) ∧ port ≠ [] ∧ digitsValue 10 port < 2 ^ 16 ∧
      n = UInt16.ofNat (digitsValue 10 port) := by
  obtain ⟨_, middle, hcolon, hnext⟩ := Reader.bind_eq_some_iff.1 h
  obtain ⟨value, last, hnumber, hlast⟩ := Reader.bind_eq_some_iff.1 hnext
  obtain ⟨_, hport, rfl⟩ := takes_readGivenChar ':' _ _ middle hcolon
  obtain rfl : port = middle := (List.cons.inj hport).2
  obtain ⟨hn, rfl⟩ := Prod.mk.inj (Option.some.inj hlast)
  obtain ⟨digits, hdigits, hall, hne, hvalue, hbound⟩ :=
    takes_readNumber 10 none true (2 ^ 16) port value [] hnumber
  rw [List.append_nil] at hdigits
  subst hdigits
  refine ⟨fun c hc => ?_, hne, hvalue ▸ hbound, by rw [← hn, hvalue]⟩
  rw [← isSome_toDigit_ten]
  exact hall c hc

/-- An address without colons is split from its port where one expects it. -/
theorem of_parseSocketAddr {name port : Str} {ip : IpAddr} {n : UInt16} (hname : ':' ∉ name)
    (hport : ':' ∉ port) (h : parseSocketAddr (name ++ ':' :: port) = some (ip, n)) :
    parseIpAddr name = some ip ∧ readPort (':' :: port) = some (n, []) := by
  rcases Option.or_eq_some_iff.1 (Reader.readAll_eq_some_iff.1 h) with hv4 | ⟨-, hv6⟩
  · obtain ⟨address, middle, haddress, hnext⟩ := Reader.bind_eq_some_iff.1 hv4
    obtain ⟨m, last, hm, hlast⟩ := Reader.bind_eq_some_iff.1 hnext
    obtain ⟨hresult, rfl⟩ := Prod.mk.inj (Option.some.inj hlast)
    obtain ⟨rfl, rfl⟩ := Prod.mk.inj hresult
    -- the address is read from the name alone, and the port begins at the colon
    rw [stops_readIpv4Addr (by decide) (by decide) name port, Option.map_eq_some_iff] at haddress
    obtain ⟨⟨found, rest⟩, hfound, hsplit⟩ := haddress
    obtain ⟨rfl, rfl⟩ := Prod.mk.inj hsplit
    obtain ⟨taken, hrest, -⟩ := takes_readIpv4Addr name found rest hfound
    cases rest with
    | nil => exact ⟨parseIpAddr_of_readIpv4Addr hfound, hm⟩
    | cons c rest =>
        obtain ⟨_, back, hcolon, -⟩ := Reader.bind_eq_some_iff.1 hm
        obtain ⟨_, hback, rfl⟩ := takes_readGivenChar ':' _ _ back hcolon
        obtain rfl : c = ':' := (List.cons.inj hback).1
        exact absurd (hrest ▸ List.mem_append_right taken List.mem_cons_self) hname
  · obtain ⟨taken, hinput, htaken⟩ := takes_readSocketAddrV6 _ _ [] hv6
    have hcount : (name ++ ':' :: port).count ':' = 1 := by
      rw [List.count_append, List.count_cons_self, List.count_eq_zero.2 hname,
        List.count_eq_zero.2 hport]
    rw [List.append_nil] at hinput
    rw [← hinput, hcount] at htaken
    omega

/-- An IPv6 address in brackets is split from its port at the closing one. -/
theorem of_parseSocketAddr_brackets {text port : Str} {address : BitVec 128} {ip : IpAddr} {n : UInt16}
    (haddress : parseIpAddr text = some (.v6 address))
    (h : parseSocketAddr ('[' :: (text ++ ']' :: ':' :: port)) = some (ip, n)) :
    ip = .v6 address ∧ readPort (':' :: port) = some (n, []) := by
  have hv4 : readSocketAddrV4 ('[' :: (text ++ ']' :: ':' :: port)) = none := rfl
  rcases Option.or_eq_some_iff.1 (Reader.readAll_eq_some_iff.1 h) with hv4' | ⟨-, hv6⟩
  · rw [hv4] at hv4'
    nomatch hv4'
  · obtain ⟨_, second, hopen, hnext⟩ := Reader.bind_eq_some_iff.1 hv6
    obtain ⟨found, third, hfound, hnext⟩ := Reader.bind_eq_some_iff.1 hnext
    obtain ⟨_, hsecond, rfl⟩ := takes_readGivenChar '[' _ _ second hopen
    obtain rfl : text ++ ']' :: ':' :: port = second := (List.cons.inj hsecond).2
    rw [stops_readIpv6Addr (by decide) (by decide) (by decide) (by decide) text,
      of_parseIpAddr_v6 haddress, Option.map_some, Option.some.injEq, Prod.mk.injEq] at hfound
    obtain ⟨rfl, rfl⟩ := hfound
    obtain ⟨scope, fourth, hscope, hnext⟩ := Reader.bind_eq_some_iff.1 hnext
    -- a scope would begin with a percent sign
    have hnoScope : readScopeId.optional ([] ++ ']' :: ':' :: port) = some (none, ']' :: ':' :: port) := rfl
    rw [hnoScope, Option.some.injEq, Prod.mk.injEq] at hscope
    obtain ⟨rfl, rfl⟩ := hscope
    obtain ⟨_, fifth, hclose, hnext⟩ := Reader.bind_eq_some_iff.1 hnext
    obtain ⟨_, hfourth, rfl⟩ := takes_readGivenChar ']' _ _ fifth hclose
    obtain rfl : ':' :: port = fifth := (List.cons.inj hfourth).2
    obtain ⟨m, last, hm, hlast⟩ := Reader.bind_eq_some_iff.1 hnext
    obtain ⟨hresult, rfl⟩ := Prod.mk.inj (Option.some.inj hlast)
    obtain ⟨rfl, rfl⟩ := Prod.mk.inj hresult
    exact ⟨rfl, hm⟩

end Ferron.Rust.Net
