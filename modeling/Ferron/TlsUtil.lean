import Ferron.Common.Hostname
import Ferron.Lib.SortedSearch
import Ferron.Lib.StableSort

/-!
# The choice of a certificate

A resolver for TLS server names holds resolvers for hosts, sorted so that hosts with a wildcard come
last, and of these the ones with more labels first. It asks the first one whose host matches the name.

A host that is loaded again keeps the resolver that it had. `resolve_loadAll` says that otherwise the
order in which the hosts are loaded does not matter: the host that equals the name is taken, or else the
wildcard with the most labels.
-/

set_option autoImplicit false

namespace Ferron.TlsUtil

open Ferron.Common Ferron.Lib.SortedSearch Ferron.Lib.StableSort Std

/-! ## The resolver -/

/-- `DnsName`: a server name with a dot at its end or not. The TLS library takes names of labels that are
not empty, without asterisks. -/
structure DnsName where
  hostname : Str
  dot : Bool
  ne_nil : hostname ≠ []
  no_dot : hostname.getLast? ≠ some '.'
  no_asterisk : '*' ∉ hostname

/-- The name as it was sent. -/
def DnsName.text (name : DnsName) : Str := if name.dot then name.hostname ++ ['.'] else name.hostname

/-- `ClientHello`, with the server name that it is about. -/
structure ClientHello where
  serverName : Option DnsName

section Resolver

-- The certified keys.
variable {κ : Type}

/-- `ResolvesServerCert`. -/
abbrev ResolvesServerCert (κ : Type) := ClientHello → Option κ

/-- `CustomSniResolver`; of the sender only its port matters. -/
structure CustomSniResolver (κ : Type) where
  fallbackResolver : Option (ResolvesServerCert κ)
  resolvers : List (Str × ResolvesServerCert κ)
  fallbackSender : Option UInt16

/-- A host with a wildcard. -/
def startsWithWildcard (host : Str) : Bool := "*.".toList.isPrefixOf host

/-- The amount of dots in a hostname, without those at its end. -/
def domainLevel (host : Str) : Nat := (host.rdropWhile (· == '.')).count '.'

/-- The comparison that the resolvers are sorted by. -/
def hostCmp : Str → Str → Ordering :=
  compareLex (compareOn startsWithWildcard) fun a b => compareOn domainLevel b a

/-- `load_host_resolver`. -/
def loadHostResolver (resolvers : List (Str × ResolvesServerCert κ))
    (load : Str × ResolvesServerCert κ) : List (Str × ResolvesServerCert κ) :=
  sortBy hostCmp Prod.fst
    (if resolvers.any fun resolver => resolver.1 = load.1 then resolvers else resolvers ++ [load])

namespace CustomSniResolver

/-- `resolve`: the certified key, and what the fallback sender is given. -/
def resolve (resolver : CustomSniResolver κ) (clientHello : ClientHello) :
    Option κ × Option (Str × UInt16) :=
  let hostname := clientHello.serverName.map fun hn => stripSuffix '.' hn.text
  let fallback :=
    match resolver.fallbackResolver.bind fun r => r clientHello with
    | some key => (some key, none)
    | none => (none, resolver.fallbackSender.bind fun port => hostname.map fun hn => (hn, port))
  match hostname with
  | some hostname =>
      match resolver.resolvers.find? fun r => matchHostname (some r.1) (some hostname) with
      | some (_, r) => (r clientHello, none)
      | none => fallback
  | none => fallback

/-- The resolver after a sequence of `load_host_resolver` calls, with a fallback or not. -/
def loadAll (fallbackResolver : Option (ResolvesServerCert κ)) (fallbackSender : Option UInt16)
    (loads : List (Str × ResolvesServerCert κ)) : CustomSniResolver κ :=
  ⟨fallbackResolver, loads.foldl loadHostResolver [], fallbackSender⟩

end CustomSniResolver

/-! ## What is to be chosen -/

/-- A wildcard for the name or for a domain that it is in. -/
def IsWildcardFor (hostname host : Str) : Prop :=
  ∃ root ≠ [], host = '*' :: '.' :: root ∧ (hostname = root ∨ '.' :: root <:+ hostname)

/-- The number of labels of a host. -/
def labels (host : Str) : Nat := host.count '.' + 1

/-- The resolver that a host was loaded with first. -/
def FirstLoaded (loads : List (Str × ResolvesServerCert κ)) (host : Str) (r : ResolvesServerCert κ) :
    Prop :=
  loads.find? (fun load => load.1 = host) = some (host, r)

/-- Two sequences load the same resolver first for every host. -/
def SameFirst (loads other : List (Str × ResolvesServerCert κ)) : Prop :=
  ∀ host r, FirstLoaded loads host r ↔ FirstLoaded other host r

/-- The host is the name itself, or, when that is not loaded, a wildcard with the most labels. -/
structure Preferred (loads : List (Str × ResolvesServerCert κ)) (hostname host : Str) : Prop where
  applies : host = hostname ∨ (∀ r, ¬ FirstLoaded loads hostname r) ∧ IsWildcardFor hostname host
  most : host ≠ hostname → ∀ other r, FirstLoaded loads other r → IsWildcardFor hostname other →
    labels other ≤ labels host

/-- The resolver to be asked: the one of the preferred host, and none when no host applies. -/
def Chooses (loads : List (Str × ResolvesServerCert κ)) (hostname : Str) :
    Option (ResolvesServerCert κ) → Prop
  | some r => ∃ host, FirstLoaded loads host r ∧ Preferred loads hostname host
  | none => ∀ host r, FirstLoaded loads host r → host ≠ hostname ∧ ¬ IsWildcardFor hostname host

end Resolver

/-! ## Hosts that apply to a name -/

section Hosts

variable {name : DnsName} {host : Str}

theorem DnsName.stripSuffix_text (name : DnsName) : stripSuffix '.' name.text = name.hostname := by
  rw [stripSuffix, DnsName.text]
  cases name.dot with
  | true => rw [if_pos rfl, if_pos List.getLast?_concat, List.dropLast_concat]
  | false => rw [if_neg Bool.false_ne_true, if_neg name.no_dot]

theorem IsWildcardFor.root_suffix {hostname root : Str}
    (h : hostname = root ∨ '.' :: root <:+ hostname) : root <:+ hostname := by
  rcases h with rfl | h
  · exact List.suffix_rfl
  · exact (List.suffix_cons '.' root).trans h

/-- A host other than the asterisk matches a name that it equals or is a wildcard for. -/
theorem matchHostname_iff (hhost : host ≠ "*".toList) :
    matchHostname (some host) (some name.hostname) = true ↔
      host = name.hostname ∨ IsWildcardFor name.hostname host := by
  have hne : ((some host).isNone || some host == some "*".toList) = false := by
    simpa using hhost
  rw [matchHostname, hne, if_neg Bool.false_ne_true]
  dsimp only
  by_cases hwildcard : ∃ root ≠ [], host = '*' :: '.' :: root
  · obtain ⟨root, hroot, rfl⟩ := hwildcard
    have hstart : ("*.".toList.isPrefixOf ('*' :: '.' :: root) && '*' :: '.' :: root != "*.".toList) =
        true := by
      simpa using hroot
    have hequal : '*' :: '.' :: root ≠ name.hostname := fun h =>
      name.no_asterisk (h ▸ List.mem_cons_self)
    rw [if_pos hstart]
    simp only [List.drop_succ_cons, List.drop_zero, Bool.or_eq_true, beq_iff_eq, Bool.and_eq_true,
      decide_eq_true_eq, List.isSuffixOf_iff_suffix]
    constructor
    · rintro (h | ⟨-, h⟩)
      · exact Or.inr ⟨root, hroot, rfl, Or.inl h⟩
      · exact Or.inr ⟨root, hroot, rfl, Or.inr h⟩
    · rintro (h | ⟨other, -, hsame, h⟩)
      · exact absurd h hequal
      · obtain rfl : root = other := by simpa using hsame
        rcases h with h | h
        · exact Or.inl h
        · exact Or.inr ⟨h.length_le, h⟩
  · have hstart : ¬ ("*.".toList.isPrefixOf host && host != "*.".toList) = true := by
      rw [Bool.and_eq_true, List.isPrefixOf_iff_prefix, bne_iff_ne]
      rintro ⟨⟨root, rfl⟩, hne⟩
      refine hwildcard ⟨root, ?_, rfl⟩
      rintro rfl
      exact hne rfl
    rw [if_neg hstart, beq_iff_eq]
    constructor
    · exact fun h => Or.inl h.symm
    · rintro (h | ⟨root, hroot, hsame, -⟩)
      · exact h.symm
      · exact absurd ⟨root, hroot, hsame⟩ hwildcard

/-- Wildcards for a name do not end in a dot. -/
theorem domainLevel_of_isWildcardFor (h : IsWildcardFor name.hostname host) :
    domainLevel host + 1 = labels host := by
  obtain ⟨root, hroot, rfl, happlies⟩ := h
  obtain ⟨front, hfront⟩ := IsWildcardFor.root_suffix happlies
  have hlast : ('*' :: '.' :: root).rdropWhile (· == '.') = '*' :: '.' :: root := by
    rw [List.rdropWhile_eq_self_iff]
    intro hne hdot
    apply name.no_dot
    rw [← hfront, List.getLast?_append_of_ne_nil _ hroot, List.getLast?_eq_some_getLast hroot]
    rw [List.getLast_cons (List.cons_ne_nil _ _), List.getLast_cons hroot, beq_iff_eq] at hdot
    rw [hdot]
  rw [domainLevel, labels, hlast]

/-- Of two domains that a name is in the longer one has more dots. -/
theorem count_lt_of_length_lt {hostname root other : Str}
    (h : hostname = root ∨ '.' :: root <:+ hostname) (hother : other <:+ hostname)
    (hlt : root.length < other.length) : root.count '.' < other.count '.' := by
  have hdotted : '.' :: root <:+ other := by
    rcases h with rfl | h
    · have hle := hother.length_le
      omega
    · exact List.suffix_of_suffix_length_le h hother hlt
  have hle := hdotted.sublist.count_le '.'
  rw [List.count_cons_self] at hle
  exact hle

/-- Two wildcards for a name with as many labels are the same. -/
theorem eq_of_labels_eq {other : Str} (h : IsWildcardFor name.hostname host)
    (hother : IsWildcardFor name.hostname other) (hlabels : labels host = labels other) :
    host = other := by
  obtain ⟨root, -, rfl, happlies⟩ := h
  obtain ⟨otherRoot, -, rfl, hotherApplies⟩ := hother
  have hcount : root.count '.' = otherRoot.count '.' := by
    simpa [labels] using hlabels
  have hroot := IsWildcardFor.root_suffix happlies
  have hotherRoot := IsWildcardFor.root_suffix hotherApplies
  have hlength : root.length = otherRoot.length := by
    rcases Nat.lt_trichotomy root.length otherRoot.length with hlt | heq | hgt
    · exact absurd hcount (count_lt_of_length_lt happlies hotherRoot hlt).ne
    · exact heq
    · exact absurd hcount (count_lt_of_length_lt hotherApplies hroot hgt).ne'
  have hsuffix := List.suffix_of_suffix_length_le hroot hotherRoot hlength.le
  rw [hsuffix.eq_of_length hlength]

end Hosts

/-! ## The resolvers of a sequence of calls -/

section Loads

variable {κ : Type} {loads : List (Str × ResolvesServerCert κ)} {name : DnsName}

/-- A host is held with the resolver that it was loaded with first. -/
theorem mem_resolvers_iff {host : Str} {r : ResolvesServerCert κ} :
    (host, r) ∈ loads.foldl loadHostResolver [] ↔ FirstLoaded loads host r :=
  @mem_foldl_iff _ _ _ Prod.fst _ (fun _ _ => List.perm_insertionSort _ _) loads (host, r)

theorem firstLoaded_unique {host : Str} {r r' : ResolvesServerCert κ} (h : FirstLoaded loads host r)
    (h' : FirstLoaded loads host r') : r = r' := by
  rw [FirstLoaded, h] at h'
  exact (Prod.mk.inj (Option.some.inj h')).2

theorem host_mem_of_firstLoaded {host : Str} {r : ResolvesServerCert κ} (h : FirstLoaded loads host r) :
    (host, r) ∈ loads := List.mem_of_find?_eq_some h

theorem exists_firstLoaded {load : Str × ResolvesServerCert κ} (h : load ∈ loads) :
    ∃ r, FirstLoaded loads load.1 r := by
  have hsome : (loads.find? fun other => other.1 = load.1).isSome = true :=
    List.find?_isSome.2 ⟨load, h, decide_eq_true rfl⟩
  obtain ⟨⟨host, r⟩, hfound⟩ := Option.isSome_iff_exists.1 hsome
  have hhost : host = load.1 := by simpa using List.find?_some hfound
  rw [hhost] at hfound
  exact ⟨r, hfound⟩

instance : TransCmp hostCmp :=
  inferInstanceAs (TransCmp (compareLex (compareOn startsWithWildcard)
    fun a b => compareOn domainLevel b a))

theorem pairwise_resolvers :
    (loads.foldl loadHostResolver []).Pairwise (KeyLE hostCmp Prod.fst) := by
  induction loads using List.reverseRecOn with
  | nil => exact List.Pairwise.nil
  | append_singleton loads load _ =>
      rw [List.foldl_concat]
      exact List.pairwise_insertionSort _ _

/-- A host before another one is no wildcard, or both are and it has as many dots. -/
theorem hostCmp_isLE {a b : Str} (h : (hostCmp a b).isLE = true) :
    startsWithWildcard a = false ∨ startsWithWildcard b = true ∧ domainLevel b ≤ domainLevel a := by
  rw [hostCmp, compareLex, compareOn] at h
  cases ha : startsWithWildcard a with
  | false => exact Or.inl rfl
  | true =>
      right
      cases hb : startsWithWildcard b with
      | false =>
          rw [ha, hb] at h
          have hgt : false = true := h
          nomatch hgt
      | true =>
          rw [ha, hb] at h
          exact ⟨rfl, Nat.isLE_compare.1 h⟩

theorem startsWithWildcard_of_isWildcardFor {host hostname : Str} (h : IsWildcardFor hostname host) :
    startsWithWildcard host = true := by
  obtain ⟨root, -, rfl, -⟩ := h
  rfl

theorem not_startsWithWildcard (name : DnsName) : startsWithWildcard name.hostname = false := by
  rw [startsWithWildcard, Bool.eq_false_iff, Ne, List.isPrefixOf_iff_prefix]
  rintro ⟨rest, hrest⟩
  apply name.no_asterisk
  rw [← hrest]
  exact List.mem_cons_self

/-- What the search stops at is preferred. -/
theorem preferred_of_find? (hhosts : ∀ load ∈ loads, load.1 ≠ "*".toList) {host : Str}
    {r : ResolvesServerCert κ}
    (hfind : (loads.foldl loadHostResolver []).find?
      (fun r => matchHostname (some r.1) (some name.hostname)) = some (host, r)) :
    FirstLoaded loads host r ∧ Preferred loads name.hostname host := by
  have hfirst := mem_resolvers_iff.1 (List.mem_of_find?_eq_some hfind)
  have happlies : host = name.hostname ∨ IsWildcardFor name.hostname host :=
    (matchHostname_iff (hhosts _ (host_mem_of_firstLoaded hfirst))).1
      (by simpa using List.find?_some hfind)
  -- every other host that applies comes behind it
  have hbehind : ∀ other r', FirstLoaded loads other r' →
      (other = name.hostname ∨ IsWildcardFor name.hostname other) →
        other = host ∨ (hostCmp host other).isLE = true := by
    intro other r' hother hotherApplies
    rcases rel_of_find? pairwise_resolvers hfind (mem_resolvers_iff.2 hother)
      ((matchHostname_iff (hhosts _ (host_mem_of_firstLoaded hother))).2 hotherApplies) with h | h
    · exact Or.inl (Prod.mk.inj h).1
    · exact Or.inr h
  refine ⟨hfirst, ?_, ?_⟩
  · rcases happlies with rfl | hwildcard
    · exact Or.inl rfl
    · refine Or.inr ⟨fun r' hname => ?_, hwildcard⟩
      have hstart := startsWithWildcard_of_isWildcardFor hwildcard
      rcases hbehind _ r' hname (Or.inl rfl) with hsame | hle
      · rw [← hsame, not_startsWithWildcard] at hstart
        nomatch hstart
      · rcases hostCmp_isLE hle with hnot | ⟨hnot, -⟩
        · rw [hnot] at hstart
          nomatch hstart
        · rw [not_startsWithWildcard] at hnot
          nomatch hnot
  · intro hne other r' hother hotherWildcard
    have hwildcard := happlies.resolve_left hne
    rcases hbehind other r' hother (Or.inr hotherWildcard) with rfl | hle
    · exact Nat.le_refl _
    · have hstart := startsWithWildcard_of_isWildcardFor hwildcard
      rcases hostCmp_isLE hle with hnot | ⟨-, hlevel⟩
      · rw [hnot] at hstart
        nomatch hstart
      · have hhost := domainLevel_of_isWildcardFor hwildcard
        have hotherLevel := domainLevel_of_isWildcardFor hotherWildcard
        change labels other ≤ labels host
        omega

/-- Only one host is preferred. -/
theorem preferred_unique {host other : Str} {r r' : ResolvesServerCert κ}
    (hfirst : FirstLoaded loads host r) (hother : FirstLoaded loads other r')
    (h : Preferred loads name.hostname host) (h' : Preferred loads name.hostname other) :
    host = other := by
  rcases h.applies with rfl | ⟨hnone, hwildcard⟩
  · rcases h'.applies with rfl | ⟨hnone, -⟩
    · rfl
    · exact absurd hfirst (hnone r)
  · rcases h'.applies with rfl | ⟨-, hotherWildcard⟩
    · exact absurd hother (hnone r')
    · have hne : ∀ {host : Str}, IsWildcardFor name.hostname host → host ≠ name.hostname := by
        rintro host hwildcard rfl
        have hstart := startsWithWildcard_of_isWildcardFor hwildcard
        rw [not_startsWithWildcard] at hstart
        nomatch hstart
      exact eq_of_labels_eq hwildcard hotherWildcard (Nat.le_antisymm
        (h'.most (hne hotherWildcard) host r hfirst hwildcard)
        (h.most (hne hwildcard) other r' hother hotherWildcard))

/-- Only one choice is right. -/
theorem chooses_unique {choice other : Option (ResolvesServerCert κ)}
    (h : Chooses loads name.hostname choice) (h' : Chooses loads name.hostname other) :
    choice = other := by
  have hnone : ∀ {r : ResolvesServerCert κ}, Chooses loads name.hostname (some r) →
      ¬ Chooses loads name.hostname none := by
    rintro r ⟨host, hfirst, hpreferred⟩ hnot
    obtain ⟨hne, hwildcard⟩ := hnot host r hfirst
    rcases hpreferred.applies with hsame | ⟨-, happlies⟩
    · exact hne hsame
    · exact hwildcard happlies
  cases choice with
  | none =>
      cases other with
      | none => rfl
      | some r => exact absurd h (hnone h')
  | some r =>
      cases other with
      | none => exact absurd h' (hnone h)
      | some r' =>
          obtain ⟨host, hfirst, hpreferred⟩ := h
          obtain ⟨otherHost, hother, hotherPreferred⟩ := h'
          obtain rfl := preferred_unique hfirst hother hpreferred hotherPreferred
          rw [firstLoaded_unique hfirst hother]

/-- What is right for a sequence is right for another one that loads the same first. -/
theorem SameFirst.chooses {other : List (Str × ResolvesServerCert κ)} (h : SameFirst loads other)
    {hostname : Str} {choice : Option (ResolvesServerCert κ)} (hchoice : Chooses other hostname choice) :
    Chooses loads hostname choice := by
  cases choice with
  | none => exact fun host r hfirst => hchoice host r ((h host r).1 hfirst)
  | some r =>
      obtain ⟨host, hfirst, happlies, hmost⟩ := hchoice
      refine ⟨host, (h host r).2 hfirst, ?_, ?_⟩
      · rcases happlies with hsame | ⟨hnone, hwildcard⟩
        · exact Or.inl hsame
        · exact Or.inr ⟨fun r' hname => hnone r' ((h _ r').1 hname), hwildcard⟩
      · exact fun hne otherHost r' hother => hmost hne otherHost r' ((h _ r').1 hother)

end Loads

/-! ## The answer -/

section Answer

variable {κ : Type} (fallbackResolver : Option (ResolvesServerCert κ)) (fallbackSender : Option UInt16)

/-- The answer of the resolver that is chosen, or of the fallback when there is none. -/
def answer (name : DnsName) : Option (ResolvesServerCert κ) → Option κ × Option (Str × UInt16)
  | some r => (r ⟨some name⟩, none)
  | none =>
      match fallbackResolver.bind fun r => r ⟨some name⟩ with
      | some key => (some key, none)
      | none => (none, fallbackSender.map fun port => (name.hostname, port))

/-- The search comes to the choice that is right. -/
theorem exists_choice {loads : List (Str × ResolvesServerCert κ)}
    (hhosts : ∀ load ∈ loads, load.1 ≠ "*".toList) (name : DnsName) :
    ∃ choice, Chooses loads name.hostname choice ∧
      (CustomSniResolver.loadAll fallbackResolver fallbackSender loads).resolve ⟨some name⟩ =
        answer fallbackResolver fallbackSender name choice := by
  rw [CustomSniResolver.resolve, CustomSniResolver.loadAll]
  dsimp only [Option.map_some]
  rw [name.stripSuffix_text]
  cases hfind : (loads.foldl loadHostResolver []).find?
      fun r => matchHostname (some r.1) (some name.hostname) with
  | none =>
      refine ⟨none, ?_, ?_⟩
      · intro host r hfirst
        have hnot := List.find?_eq_none.1 hfind (host, r) (mem_resolvers_iff.2 hfirst)
        rw [matchHostname_iff (hhosts _ (host_mem_of_firstLoaded hfirst)), not_or] at hnot
        exact hnot
      · rw [answer]
        cases fallbackSender with
        | none => rfl
        | some port => rfl
  | some found =>
      obtain ⟨host, r⟩ := found
      obtain ⟨hfirst, hpreferred⟩ := preferred_of_find? hhosts hfind
      exact ⟨some r, ⟨host, hfirst, hpreferred⟩, rfl⟩

/-- The resolver asks the one of the host that equals the name, or else of the wildcard with the most
labels. Another sequence that loads the same resolver first for every host gives the same answer. -/
theorem resolve_loadAll (loads : List (Str × ResolvesServerCert κ))
    (hhosts : ∀ load ∈ loads, load.1 ≠ "*".toList) (name : DnsName) :
    (∃ choice, Chooses loads name.hostname choice ∧
      (CustomSniResolver.loadAll fallbackResolver fallbackSender loads).resolve ⟨some name⟩ =
        answer fallbackResolver fallbackSender name choice) ∧
    ∀ other, SameFirst loads other →
      (CustomSniResolver.loadAll fallbackResolver fallbackSender other).resolve ⟨some name⟩ =
        (CustomSniResolver.loadAll fallbackResolver fallbackSender loads).resolve ⟨some name⟩ := by
  obtain ⟨choice, hchoice, hresolve⟩ := exists_choice fallbackResolver fallbackSender hhosts name
  refine ⟨⟨choice, hchoice, hresolve⟩, ?_⟩
  intro other hsame
  have hotherHosts : ∀ load ∈ other, load.1 ≠ "*".toList := by
    intro load hload
    obtain ⟨r, hfirst⟩ := exists_firstLoaded hload
    have hmem : (load.1, r) ∈ loads := host_mem_of_firstLoaded ((hsame _ r).2 hfirst)
    exact hhosts (load.1, r) hmem
  obtain ⟨otherChoice, hotherChoice, hotherResolve⟩ :=
    exists_choice fallbackResolver fallbackSender hotherHosts name
  rw [hotherResolve, hresolve, chooses_unique hchoice (hsame.chooses hotherChoice)]

end Answer

/-- A resolver with one certified key, `OneCertifiedKeyResolver`. -/
def oneCertifiedKey {κ : Type} (certifiedKey : κ) : ResolvesServerCert κ := fun _ => some certifiedKey

theorem asterisk_not_mem_www : '*' ∉ "www.example.com".toList := by decide

theorem www_no_dot : "www.example.com".toList.getLast? ≠ some '.' := by decide

/-- A server name, sent with a dot at its end or not. -/
def www (dot : Bool) : DnsName :=
  ⟨"www.example.com".toList, dot, List.cons_ne_nil _ _, www_no_dot, asterisk_not_mem_www⟩

/-- Two wildcards, the one with fewer labels first. -/
def wildcards : List (Str × ResolvesServerCert Nat) :=
  [("*.com".toList, oneCertifiedKey 1), ("*.example.com".toList, oneCertifiedKey 2)]

/-- The wildcard with more labels is chosen. -/
theorem resolve_wildcards :
    (CustomSniResolver.loadAll none none wildcards).resolve ⟨some (www false)⟩ = (some 2, none) ∧
      ∃ choice, Chooses wildcards "www.example.com".toList choice ∧
        (CustomSniResolver.loadAll none none wildcards).resolve ⟨some (www false)⟩ =
          answer none none (www false) choice := by
  refine ⟨by decide, (resolve_loadAll none none wildcards ?_ (www false)).1⟩
  decide

/-- A host that is loaded twice keeps the first resolver, so the order matters, and a host with a dot at
its end does not equal a name that is sent with one. -/
theorem resolve_order :
    (CustomSniResolver.loadAll none none [("www.example.com".toList, oneCertifiedKey 1),
        ("www.example.com".toList, oneCertifiedKey 2)]).resolve ⟨some (www false)⟩ = (some 1, none) ∧
      (CustomSniResolver.loadAll none none [("www.example.com".toList, oneCertifiedKey 2),
        ("www.example.com".toList, oneCertifiedKey 1)]).resolve ⟨some (www false)⟩ = (some 2, none) ∧
      (www true).text = "www.example.com.".toList ∧
      (CustomSniResolver.loadAll none none
        [("www.example.com.".toList, oneCertifiedKey 1)]).resolve ⟨some (www true)⟩ = (none, none) := by
  decide

end Ferron.TlsUtil
