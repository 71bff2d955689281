import Ferron.Config.YamlLegacy
import Ferron.HostLookup
import Ferron.Rust.Net

/-!
# Host specifiers

The name of a block is taken apart by trying, in turn, a socket address, a split at the last colon, and an
address in brackets or without. A host name, an IPv4 address and an IPv6 address in brackets are told from
the port behind them, and so is any host (`parseHostFilter_append`).

An IPv6 address without a port has colons itself. It never comes to the arm for addresses, as the split at
the last colon is tried before, so the address is cut into a host and a port, or no port is found
(`parsedBy_iff`). The text between brackets is taken for an address in that arm, but only IPv4 addresses
come to it.
-/

set_option autoImplicit false

namespace Ferron.Config

open Ferron.Common Ferron.HostLookup Ferron.Rust

/-- The environment with the address parser of the standard library. -/
def Environment.withNet (env : Environment) : Environment :=
  { env with parseIpAddr := Net.parseIpAddr, parseSocketAddr := Net.parseSocketAddr }

/-! ## What a specifier says -/

/-- A host name: neither an address nor the word for any host. -/
structure IsHostName (hostname : Str) : Prop where
  nonempty : hostname ≠ []
  notAny : hostname ≠ "*".toList
  noColon : ':' ∉ hostname
  noComma : ',' ∉ hostname
  notAddress : Net.parseIpAddr hostname = none

/-- A host, an address or any host. -/
inductive Host where
  | name (hostname : Str) (valid : IsHostName hostname)
  | ipv4 (address : Str) (ip : BitVec 32) (reads : Net.parseIpAddr address = some (.v4 ip))
  | ipv6 (address : Str) (ip : BitVec 128) (reads : Net.parseIpAddr address = some (.v6 ip))
      (brackets : Bool)
  | any (star : Bool)

namespace Host

/-- The host as it is written. -/
def text : Host → Str
  | name hostname _ => hostname
  | ipv4 address _ _ => address
  | ipv6 address _ _ brackets => if brackets then '[' :: (address ++ [']']) else address
  | any star => if star then "*".toList else []

/-- The filter for the host. -/
def filter (port : Option UInt16) : Host → HostFilter
  | name hostname _ => ⟨some hostname, none, port, true⟩
  | ipv4 _ ip _ => ⟨none, some (.v4 ip), port, true⟩
  | ipv6 _ ip _ _ => ⟨none, some (.v6 ip), port, true⟩
  | any _ => ⟨none, none, port, true⟩

/-- A port may follow: an IPv6 address is in brackets. -/
def TakesPort : Host → Prop
  | ipv6 _ _ _ brackets => brackets = true
  | _ => True

/-- The host is not a name that is an address between brackets. -/
def NotBracketed : Host → Prop
  | name hostname _ => Net.parseIpAddr (withoutBrackets hostname) = none
  | _ => True

/-- The host may stand without a port: it is no IPv6 address, and none of the words for other blocks. -/
def StandsAlone : Host → Prop
  | name hostname _ => hostname ≠ "globals".toList ∧ hostname ≠ "snippet".toList
  | ipv6 _ _ _ _ => False
  | _ => True

end Host

/-- The name of a block for a host, with or without a port. -/
structure Specifier where
  host : Host
  port : Option Str
  port_reads : ∀ p ∈ port, (parseU16 p).isSome = true
  takesPort : port.isSome = true → host.TakesPort

namespace Specifier

/-- The name of the block. -/
def text (specifier : Specifier) : Str :=
  match specifier.port with
  | some port => specifier.host.text ++ ':' :: port
  | none => specifier.host.text

/-- The filter that the specifier stands for. -/
def filter (specifier : Specifier) : HostFilter := specifier.host.filter (specifier.port.bind parseU16)

/-- The code tells the host from the port. -/
def Separable (specifier : Specifier) : Prop :=
  specifier.host.NotBracketed ∧ (specifier.port = none → specifier.host.StandsAlone)

end Specifier

/-- The rest of `loadHost` with a filter. -/
def loadHostAs (env : Environment) (canonicalPath : PathBuf) (fuel : Nat) (children : KdlDocument)
    (state : FileLoading) (hostFilter : HostFilter) : Load FileLoading := do
  let ctx : LoadingContext := ⟨env.toLibraries, canonicalPath, hostFilter, state.snippets⟩
  let inner ← children.foldlM (kdlIterateFn ctx fuel [] false)
    ⟨state.configurations, ∅, state.loadedConditions, state.tables⟩
  pure { state with
    configurations := inner.configurations ++
      [⟨⟨inner.configurationEntries, hostFilter.filters none none⟩, []⟩]
    loadedConditions := inner.loadedConditions
    tables := inner.tables }

/-- The rest of `legacyHost` with a filter. -/
def legacyHostAs (children : KdlDocument) (configurations : List ServerConfiguration) (host : HostFilter) :
    Except Str (List ServerConfiguration) := do
  let inner ← children.foldlM (legacyHostNode host) ⟨configurations, ∅⟩
  pure (inner.configurations ++ [⟨inner.configurationEntries, host.filters none none⟩])

/-- Both adapters take a block with this name for one block with this filter. -/
structure ParsedBy (env : Environment) (name : Str) (host : HostFilter) : Prop where
  kdl : ∀ canonicalPath fuel load state entries children,
    loadNode env canonicalPath fuel load state ⟨name, entries, some children⟩ =
      loadHostAs env canonicalPath fuel children state host
  legacy : ∀ configurations entries children,
    legacyNode env configurations ⟨name, entries, some children⟩ =
      legacyHostAs children configurations host

/-! ## From the adapters to the filter -/

section Adapters

variable {env : Environment} {name : Str} {host : HostFilter}

theorem loadHost_eq (canonicalPath : PathBuf) (fuel : Nat) (children : KdlDocument) (state : FileLoading) :
    loadHost env canonicalPath fuel children state name =
      Load.ofExcept (parseHostFilter env canonicalPath name) >>=
        loadHostAs env canonicalPath fuel children state := rfl

theorem legacyHost_eq (children : KdlDocument) (configurations : List ServerConfiguration) :
    legacyHost env children configurations name =
      legacyHostFilter env name >>= legacyHostAs children configurations := rfl

theorem loadNode_of_noComma (hcomma : ',' ∉ name) (hsnippet : name ≠ "snippet".toList)
    (canonicalPath : PathBuf) (fuel : Nat)
    (load : PathBuf → List PathBuf → Nat → Load (List Block × List PathBuf × Nat)) (state : FileLoading)
    (entries : List KdlEntry) (children : KdlDocument) :
    loadNode env canonicalPath fuel load state ⟨name, entries, some children⟩ =
      loadHost env canonicalPath fuel children state name := by
  rw [loadNode, if_neg hsnippet]
  dsimp only
  rw [List.splitOn_eq_singleton hcomma]
  simp only [List.foldlM_cons, List.foldlM_nil, bind_pure]

theorem legacyNode_of_noComma (hcomma : ',' ∉ name) (configurations : List ServerConfiguration)
    (entries : List KdlEntry) (children : KdlDocument) :
    legacyNode env configurations ⟨name, entries, some children⟩ =
      legacyHost env children configurations name := by
  rw [legacyNode]
  dsimp only
  rw [List.splitOn_eq_singleton hcomma]
  simp only [List.foldlM_cons, List.foldlM_nil, bind_pure]

/-- The adapters do with a block what the filter of its name says, and the filter can be told from a block
without children. -/
theorem parsedBy_iff_parse (hcomma : ',' ∉ name) :
    ParsedBy env name host ↔ name ≠ "snippet".toList ∧ parseHostFilter env [] name = .ok host := by
  constructor
  · intro h
    have hfile := h.kdl [] 0 (fun _ _ _ => pure ([], [], 0)) ⟨[], ∅, ∅, 0, []⟩ [] []
    by_cases hsnippet : name = "snippet".toList
    · rw [loadNode, if_pos hsnippet] at hfile
      cases hfile
    · refine ⟨hsnippet, ?_⟩
      rw [loadNode_of_noComma hcomma hsnippet, loadHost_eq] at hfile
      cases hparse : parseHostFilter env [] name with
      | error message =>
          rw [hparse] at hfile
          cases hfile
      | ok found =>
          rw [hparse] at hfile
          have hstate := Except.ok.inj (Option.some.inj hfile)
          have hfilters : found.filters none none = host.filters none none := by
            have hblocks := (FileLoading.mk.inj hstate).1
            exact congrArg (·.filters) (Block.mk.inj (List.cons.inj hblocks).1).1
          obtain ⟨hisHost, hhostname, hip, hport, -⟩ := ServerConfigurationFilters.mk.inj hfilters
          cases found
          cases host
          simp_all [HostFilter.filters]
  · rintro ⟨hsnippet, hparse⟩
    refine ⟨fun canonicalPath fuel load state entries children => ?_,
      fun configurations entries children => ?_⟩
    · rw [loadNode_of_noComma hcomma hsnippet, loadHost_eq, (parseHostFilter_ok_iff canonicalPath).2 hparse]
      rfl
    · rw [legacyNode_of_noComma hcomma, legacyHost_eq, legacyHostFilter, hparse]
      rfl

end Adapters

/-! ## Colons and the port -/

section Split

variable {env : Environment} {canonicalPath : PathBuf} {name : Str}

theorem parseHostFilter_of_noColon (hcolon : ':' ∉ name) (hglobals : name ≠ "globals".toList) :
    parseHostFilter env.withNet canonicalPath name = .ok (addressFilter env.withNet name none) := by
  have hsocket : env.withNet.parseSocketAddr name = none := by
    cases hparse : Net.parseSocketAddr name with
    | none => exact hparse
    | some result => exact absurd (Net.colon_mem_of_parseSocketAddr hparse) hcolon
  have hsplit : rsplitOnce ':' name = none := by
    cases hparts : rsplitOnce ':' name with
    | none => rfl
    | some parts =>
        rw [of_rsplitOnce hparts] at hcolon
        exact absurd (List.mem_append_right _ List.mem_cons_self) hcolon
  rw [parseHostFilter, if_neg hglobals, hsocket, hsplit]

theorem noColon_of_parseU16 {port : Str} (h : (parseU16 port).isSome = true) : ':' ∉ port := by
  intro hmem
  have hbounds := (toNat_of_mem_port h ':' hmem).2
  exact absurd hbounds (by decide)

/-- The number that is read for a port of a socket address is the one that `parse::<u16>` reads. -/
theorem parseU16_of_readPort {port : Str} {n : UInt16} (h : Net.readPort (':' :: port) = some (n, [])) :
    parseU16 port = some n := by
  obtain ⟨hdigits, hne, hbound, rfl⟩ := Net.of_readPort h
  have hvalue : port.foldl (fun n c => 10 * n + (c.toNat - '0'.toNat)) 0 = Net.digitsValue 10 port := by
    refine List.foldl_ext _ _ _ fun n c hc => ?_
    rw [Net.toDigit_of_isDigit (Nat.le_refl _) (hdigits c hc), Option.getD_some]
  cases port with
  | nil => exact absurd rfl hne
  | cons c rest =>
      have hplus : c ≠ '+' := by
        rintro rfl
        exact absurd (hdigits '+' List.mem_cons_self) (by decide)
      have hall : (c :: rest).all Char.isDigit = true := List.all_eq_true.2 hdigits
      unfold parseU16
      split
      · next heq => exact absurd (List.cons.inj heq).1 hplus
      · dsimp only
        rw [hall, hvalue, if_neg (by simp), if_pos hbound]

theorem withoutBrackets_eq_self {address : Str} (h : '[' ∉ address) :
    withoutBrackets address = address := by
  unfold withoutBrackets
  split
  · exact absurd List.mem_cons_self h
  · rfl

theorem withoutBrackets_brackets (address : Str) :
    withoutBrackets ('[' :: (address ++ [']'])) = address := by
  rw [withoutBrackets, if_pos List.getLast?_concat, List.dropLast_concat]

theorem port_addressFilter (address : Str) (port : Option UInt16) :
    (addressFilter env address port).port = port := by
  unfold addressFilter
  split
  · rfl
  · split
    · rfl
    · rfl

theorem addressFilter_of_address {address : Str} {ip : IpAddr} (port : Option UInt16)
    (h : Net.parseIpAddr (withoutBrackets address) = some ip) :
    addressFilter env.withNet address port = ⟨none, some ip, port, true⟩ := by
  have hread : env.withNet.parseIpAddr (withoutBrackets address) = some ip := h
  rw [addressFilter, hread]

theorem addressFilter_of_name {address : Str} (port : Option UInt16)
    (h : Net.parseIpAddr (withoutBrackets address) = none) :
    addressFilter env.withNet address port =
      if address = "*".toList ∨ address.isEmpty then ⟨none, none, port, true⟩
      else ⟨some address, none, port, true⟩ := by
  have hread : env.withNet.parseIpAddr (withoutBrackets address) = none := h
  rw [addressFilter, hread]

end Split

namespace Host

variable {env : Environment}

theorem withoutBrackets_ipv4 {address : Str} {ip : BitVec 32}
    (reads : Net.parseIpAddr address = some (.v4 ip)) : withoutBrackets address = address := by
  refine withoutBrackets_eq_self fun hmem => ?_
  exact absurd (Net.isIpv4Char_of_parseIpAddr reads '[' hmem) (by unfold Net.IsIpv4Char; decide)

theorem withoutBrackets_ipv6 {address : Str} {ip : BitVec 128}
    (reads : Net.parseIpAddr address = some (.v6 ip)) : withoutBrackets address = address := by
  refine withoutBrackets_eq_self fun hmem => ?_
  exact absurd (Net.isAddressChar_of_parseIpAddr reads '[' hmem) (by decide)

/-- A host that comes to the arms for addresses is told from others, unless a name in brackets is taken for
an address. -/
theorem addressFilter_text_iff (host : Host) (port : Option UInt16) :
    addressFilter env.withNet host.text port = host.filter port ↔ host.NotBracketed := by
  cases host with
  | name hostname valid =>
      refine ⟨fun heq => ?_, fun h => ?_⟩
      · change Net.parseIpAddr (withoutBrackets hostname) = none
        cases hread : Net.parseIpAddr (withoutBrackets hostname) with
        | none => rfl
        | some ip =>
            rw [text, addressFilter_of_address port hread] at heq
            cases heq
      · have hnot : ¬(hostname = "*".toList ∨ hostname.isEmpty = true) := by
          rw [List.isEmpty_iff]
          exact not_or.2 ⟨valid.notAny, valid.nonempty⟩
        rw [text, addressFilter_of_name port h, if_neg hnot, filter]
  | ipv4 address ip reads =>
      refine iff_of_true ?_ trivial
      exact addressFilter_of_address port ((withoutBrackets_ipv4 reads).symm ▸ reads)
  | ipv6 address ip reads brackets =>
      refine iff_of_true ?_ trivial
      cases brackets with
      | true =>
          refine addressFilter_of_address port ?_
          rw [text, if_pos rfl, withoutBrackets_brackets, reads]
      | false => exact addressFilter_of_address port ((withoutBrackets_ipv6 reads).symm ▸ reads)
  | any star =>
      refine iff_of_true ?_ trivial
      cases star with
      | true =>
          have hread : Net.parseIpAddr (withoutBrackets "*".toList) = none := rfl
          exact (addressFilter_of_name port hread).trans (if_pos (.inl rfl))
      | false =>
          have hread : Net.parseIpAddr (withoutBrackets []) = none := rfl
          exact (addressFilter_of_name port hread).trans (if_pos (.inr rfl))

theorem noColon_text (host : Host)
    (h : ∀ address ip reads brackets, host ≠ .ipv6 address ip reads brackets) : ':' ∉ host.text := by
  cases host with
  | name hostname valid => exact valid.noColon
  | ipv4 address ip reads =>
      intro hmem
      exact absurd (Net.isIpv4Char_of_parseIpAddr reads ':' hmem) (by unfold Net.IsIpv4Char; decide)
  | ipv6 address ip reads brackets => exact absurd rfl (h address ip reads brackets)
  | any star =>
      cases star with
      | true => decide
      | false => exact List.not_mem_nil

theorem noComma_text (host : Host) : ',' ∉ host.text := by
  cases host with
  | name hostname valid => exact valid.noComma
  | ipv4 address ip reads =>
      intro hmem
      exact absurd (Net.isIpv4Char_of_parseIpAddr reads ',' hmem) (by unfold Net.IsIpv4Char; decide)
  | ipv6 address ip reads brackets =>
      have hnot : ',' ∉ address := fun hmem =>
        absurd (Net.isAddressChar_of_parseIpAddr reads ',' hmem) (by decide)
      cases brackets with
      | true => simpa [text] using hnot
      | false => exact hnot
  | any star =>
      cases star with
      | true => decide
      | false => exact List.not_mem_nil

/-- A socket address in the text of a host with a port is this host with this port. -/
theorem of_parseSocketAddr {host : Host} {port : Str} {ip : IpAddr} {n : UInt16} (htakes : host.TakesPort)
    (hport : ':' ∉ port) (h : Net.parseSocketAddr (host.text ++ ':' :: port) = some (ip, n)) :
    Net.parseIpAddr (withoutBrackets host.text) = some ip ∧ parseU16 port = some n := by
  cases host with
  | ipv6 address v6 reads brackets =>
      obtain rfl : brackets = true := htakes
      rw [text, if_pos rfl, List.cons_append, List.append_assoc, List.singleton_append] at h
      obtain ⟨rfl, hn⟩ := Net.of_parseSocketAddr_brackets reads h
      rw [text, if_pos rfl, withoutBrackets_brackets]
      exact ⟨reads, parseU16_of_readPort hn⟩
  | name hostname valid =>
      obtain ⟨hip, -⟩ := Net.of_parseSocketAddr valid.noColon hport h
      rw [valid.notAddress] at hip
      cases hip
  | ipv4 address v4 reads =>
      obtain ⟨hip, hn⟩ := Net.of_parseSocketAddr (noColon_text (.ipv4 address v4 reads)
        fun _ _ _ _ h => by cases h) hport h
      rw [text, withoutBrackets_ipv4 reads]
      exact ⟨hip, parseU16_of_readPort hn⟩
  | any star =>
      obtain ⟨hip, -⟩ := Net.of_parseSocketAddr (noColon_text (.any star)
        fun _ _ _ _ h => by cases h) hport h
      have hnone : Net.parseIpAddr (any star).text = none := by
        cases star with
        | true => rfl
        | false => rfl
      rw [hnone] at hip
      cases hip

/-- A host is told from the port behind it. -/
theorem parseHostFilter_append {host : Host} {port : Str} {n : UInt16} (htakes : host.TakesPort)
    (hport : parseU16 port = some n) :
    parseHostFilter env.withNet [] (host.text ++ ':' :: port) =
      .ok (addressFilter env.withNet host.text (some n)) := by
  have hcolon : ':' ∉ port := noColon_of_parseU16 (by rw [hport, Option.isSome_some])
  have hglobals : host.text ++ ':' :: port ≠ "globals".toList := by
    intro heq
    have hmem : ':' ∈ "globals".toList := heq ▸ List.mem_append_right _ List.mem_cons_self
    exact absurd hmem (by decide)
  rw [parseHostFilter, if_neg hglobals]
  cases hsocket : env.withNet.parseSocketAddr (host.text ++ ':' :: port) with
  | none =>
      dsimp only
      rw [rsplitOnce_append host.text hcolon]
      dsimp only
      rw [hport]
  | some result =>
      obtain ⟨hip, hn⟩ := of_parseSocketAddr htakes hcolon hsocket
      obtain rfl : n = result.2 := Option.some.inj (hport.symm.trans hn)
      rw [addressFilter_of_address _ hip]

end Host

/-! ## Addresses without a port -/

/-- A name with a colon is never read without a port, except with a star for it. -/
theorem star_mem_of_parseHostFilter {env : Environment} {name : Str} {host : HostFilter}
    (hcolon : ':' ∈ name) (hparse : parseHostFilter env [] name = .ok host) (hport : host.port = none) :
    '*' ∈ name := by
  have hglobals : name ≠ "globals".toList := by
    rintro rfl
    exact absurd hcolon (by decide)
  rw [parseHostFilter, if_neg hglobals] at hparse
  cases hsocket : env.parseSocketAddr name with
  | some result =>
      rw [hsocket] at hparse
      obtain rfl := Except.ok.inj hparse
      cases hport
  | none =>
      obtain ⟨left, right, hsplit, hname⟩ := exists_rsplitOnce hcolon
      rw [hsocket, hsplit] at hparse
      dsimp only at hparse
      cases hread : parseU16 right with
      | some n =>
          rw [hread] at hparse
          obtain rfl := Except.ok.inj hparse
          rw [port_addressFilter] at hport
          cases hport
      | none =>
          rw [hread] at hparse
          dsimp only at hparse
          split at hparse
          · next hstar =>
              rw [hname, hstar]
              exact List.mem_append_right _ (by decide)
          · cases hparse

theorem Host.colon_mem_ipv6 {address : Str} {ip : BitVec 128}
    (reads : Net.parseIpAddr address = some (.v6 ip)) (brackets : Bool) :
    ':' ∈ (Host.ipv6 address ip reads brackets).text := by
  have hmem : ':' ∈ address :=
    List.one_le_count_iff.1 (Nat.le_of_succ_le (Net.two_le_count_of_parseIpAddr reads))
  cases brackets with
  | true => exact List.mem_cons_of_mem _ (List.mem_append_left _ hmem)
  | false => exact hmem

theorem Host.noStar_ipv6 {address : Str} {ip : BitVec 128}
    (reads : Net.parseIpAddr address = some (.v6 ip)) (brackets : Bool) :
    '*' ∉ (Host.ipv6 address ip reads brackets).text := by
  have hnot : '*' ∉ address := fun hmem =>
    absurd (Net.isAddressChar_of_parseIpAddr reads '*' hmem) (by decide)
  cases brackets with
  | true => simpa [Host.text] using hnot
  | false => exact hnot

namespace Specifier

variable (env : Environment) (specifier : Specifier)

theorem noComma_text : ',' ∉ specifier.text := by
  rcases specifier with ⟨host, port, reads, takes⟩
  cases port with
  | none => exact host.noComma_text
  | some port =>
      obtain ⟨digits, hport, -, hdigits⟩ := digits_of_parseU16 (reads port rfl)
      have hnot : ',' ∉ digits := fun hmem => absurd (hdigits ',' hmem) (by decide)
      refine fun hmem => (List.mem_append.1 hmem).elim host.noComma_text fun htail => ?_
      rcases hport with rfl | rfl
      · exact hnot (by simpa using htail)
      · exact hnot (by simpa using htail)

theorem parse_of_port {host : Host} {port : Str} (reads : (parseU16 port).isSome = true)
    (takes : host.TakesPort) :
    parseHostFilter env.withNet [] (host.text ++ ':' :: port) = .ok (host.filter (parseU16 port)) ↔
      host.NotBracketed := by
  obtain ⟨n, hn⟩ := Option.isSome_iff_exists.1 reads
  rw [host.parseHostFilter_append takes hn, Except.ok.injEq, hn, host.addressFilter_text_iff]

/-- Without a port, the arm for addresses is reached by hosts without colons. -/
theorem parse_of_alone (host : Host) :
    host.text ≠ "snippet".toList ∧
        parseHostFilter env.withNet [] host.text = .ok (host.filter none) ↔
      host.NotBracketed ∧ host.StandsAlone := by
  have hother : (∀ address ip reads brackets, host ≠ .ipv6 address ip reads brackets) →
      host.text ≠ "globals".toList →
        (parseHostFilter env.withNet [] host.text = .ok (host.filter none) ↔ host.NotBracketed) := by
    intro hipv6 hglobals
    rw [parseHostFilter_of_noColon (host.noColon_text hipv6) hglobals, Except.ok.injEq,
      host.addressFilter_text_iff]
  cases host with
  | name hostname valid =>
      by_cases hglobals : hostname = "globals".toList
      · subst hglobals
        refine iff_of_false (fun h => ?_) fun h => h.2.1 rfl
        rw [Host.text, parseHostFilter, if_pos rfl] at h
        cases Except.ok.inj h.2
      · rw [hother (fun _ _ _ _ h => by cases h) hglobals, and_comm]
        exact and_congr_right fun _ => ⟨fun hsnippet => ⟨hglobals, hsnippet⟩, And.right⟩
  | ipv4 address ip reads =>
      have hword : ∀ word : Str, 's' ∈ word → address ≠ word := by
        rintro word hmem rfl
        exact absurd (Net.isIpv4Char_of_parseIpAddr reads 's' hmem) (by unfold Net.IsIpv4Char; decide)
      refine iff_of_true ⟨hword _ (by decide), ?_⟩ ⟨trivial, trivial⟩
      exact (hother (fun _ _ _ _ h => by cases h) (hword _ (by decide))).2 trivial
  | ipv6 address ip reads brackets =>
      refine iff_of_false (fun h => ?_) And.right
      have hstar := star_mem_of_parseHostFilter (Host.colon_mem_ipv6 reads brackets) h.2 rfl
      exact Host.noStar_ipv6 reads brackets hstar
  | any star =>
      have hword : ∀ word : Str, 's' ∈ word → (Host.any star).text ≠ word := by
        rintro word hmem rfl
        cases star with
        | true => exact absurd hmem (by decide)
        | false => exact absurd hmem List.not_mem_nil
      refine iff_of_true ⟨hword _ (by decide), ?_⟩ ⟨trivial, trivial⟩
      exact (hother (fun _ _ _ _ h => by cases h) (hword _ (by decide))).2 trivial

/-- **Both adapters take the name of a block for exactly the host and the port in it** if and only if it is
not an IPv6 address without a port, none of the words for other blocks, and no IPv4 address in brackets. -/
theorem parsedBy_iff : ParsedBy env.withNet specifier.text specifier.filter ↔ specifier.Separable := by
  rw [parsedBy_iff_parse specifier.noComma_text]
  obtain ⟨host, port, reads, takes⟩ := specifier
  cases port with
  | none =>
      exact (parse_of_alone env host).trans (and_congr_right fun _ => ⟨fun h _ => h, fun h => h rfl⟩)
  | some port =>
      have hsnippet : host.text ++ ':' :: port ≠ "snippet".toList := by
        intro heq
        have hmem : ':' ∈ "snippet".toList := heq ▸ List.mem_append_right _ List.mem_cons_self
        exact absurd hmem (by decide)
      refine (and_iff_right hsnippet).trans ((parse_of_port env (reads port rfl) (takes rfl)).trans ?_)
      exact (and_iff_left fun h => absurd h (Option.some_ne_none port)).symm

theorem parseIpAddr_loopback : Net.parseIpAddr "::1".toList = some (.v6 1) := by
  decide +kernel

theorem noPort_reads : ∀ p ∈ (none : Option Str), (parseU16 p).isSome = true :=
  fun p h => absurd h (Option.not_mem_none p)

theorem noPort_takes (host : Host) : (none : Option Str).isSome = true → host.TakesPort :=
  fun h => absurd h Bool.false_ne_true

/-- The loopback address, without brackets and with them. -/
def loopback (brackets : Bool) : Specifier where
  host := .ipv6 "::1".toList 1 parseIpAddr_loopback brackets
  port := none
  port_reads := noPort_reads
  takesPort := noPort_takes (.ipv6 "::1".toList 1 parseIpAddr_loopback brackets)

/-- The loopback address is taken for the port 1 of the host ":", and in brackets it is an error. -/
theorem loopback_split :
    parseHostFilter (documentEnvironment []).withNet [] (loopback false).text =
        .ok ⟨some ":".toList, none, some 1, true⟩ ∧
      parseHostFilter (documentEnvironment []).withNet [] (loopback true).text =
        .error (messageAt "Invalid host specifier" []) ∧
      ∀ brackets, ¬ParsedBy (documentEnvironment []).withNet (loopback brackets).text
        (loopback brackets).filter := by
  have hhost : parseHostFilter (documentEnvironment []).withNet [] (loopback false).text =
      .ok ⟨some ":".toList, none, some 1, true⟩ := by
    have hsocket : (documentEnvironment []).withNet.parseSocketAddr (loopback false).text = none := by
      decide +kernel
    have hread : Net.parseIpAddr (withoutBrackets ":".toList) = none := by decide +kernel
    rw [parseHostFilter, if_neg (by decide), hsocket]
    exact congrArg Except.ok (addressFilter_of_name _ hread)
  have herror : parseHostFilter (documentEnvironment []).withNet [] (loopback true).text =
      .error (messageAt "Invalid host specifier" []) := by
    have hsocket : (documentEnvironment []).withNet.parseSocketAddr (loopback true).text = none := by
      decide +kernel
    rw [parseHostFilter, if_neg (by decide), hsocket]
    rfl
  refine ⟨hhost, herror, fun brackets h => ?_⟩
  have hparse := ((parsedBy_iff_parse (loopback brackets).noComma_text).1 h).2
  cases brackets with
  | true =>
      rw [herror] at hparse
      cases hparse
  | false =>
      rw [hhost] at hparse
      cases Except.ok.inj hparse

end Specifier

end Ferron.Config
