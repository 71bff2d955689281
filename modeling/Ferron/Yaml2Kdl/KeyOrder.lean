import Ferron.Yaml2Kdl.GlobalOrder

/-!
# The conversion and the order of keys

The document of a configuration should not depend on the order of the keys in its sections. It does where
`customHeaders` stands in front of `locations` or `errorConfig` in one order and behind it in another: a
location or an error configuration inherits only the custom headers that are in front of it.

`sameDocument_convert_iff` says that these headers are all that may differ.
-/

set_option autoImplicit false

namespace Ferron.Yaml2Kdl

open Ferron.Config Ferron.Lib.KeyedList

/-- A configuration with the keys of the global section and of the hosts in another order, and so those of
the sections in them. -/
structure ReorderedConfiguration (yaml yaml' : Yaml) : Prop where
  globals : Reordered (yaml.index "global") (yaml'.index "global")
  hosts : List.Forall₂ Reordered (yaml.sections "hosts") (yaml'.sections "hosts")

/-- The headers of the global section. -/
def globalHeaders (yaml : Yaml) : Str → Option Str := inForce (yaml.index "global") fun _ => none

/-- The custom headers of the global section and of the hosts with a name stay the same, and so those of the
sections in them. -/
def HeadersStay (yaml yaml' : Yaml) : Prop :=
  HeadersAlike (yaml.index "global") (yaml'.index "global") (fun _ => none) (fun _ => none) ∧
    ∀ pair ∈ (yaml.sections "hosts").zip (yaml'.sections "hosts"), (hostName pair.1).isSome = true →
      HeadersAlike pair.1 pair.2 (globalHeaders yaml) (globalHeaders yaml')

section Blocks

variable {order order' : HeaderOrder} {modules : List Str}

/-- Two nodes with one key. -/
def SameKey (node node' : KdlNode) : Prop := nodeKey node = nodeKey node'

/-- Documents whose keys stand in the same order are compared node by node. -/
theorem sameDocument_iff_of_sameKeys {document document' : KdlDocument}
    (hkeys : List.Forall₂ SameKey document document') :
    SameDocument document document' ↔ List.Forall₂ SameNode document document' :=
  sameByKey_iff_forall₂ hkeys

theorem sameNode_blocks {name : Str} {children children' : KdlDocument} :
    SameNode (block name children) (block name children') ↔ SameDocument children children' :=
  sameNode_block_iff

/-- The blocks of a section are the same when their documents are. -/
theorem forall₂_sectionBlocks_iff {name : Str} {port : UInt16}
    {documents documents' : KdlDocument × Option KdlDocument}
    (hempty : documents.1 = [] ↔ documents'.1 = [])
    (hsecure : Option.Rel SameDocument documents.2 documents'.2) :
    List.Forall₂ SameKey (sectionBlocks name port documents.1 documents.2)
        (sectionBlocks name port documents'.1 documents'.2) ∧
      (List.Forall₂ SameNode (sectionBlocks name port documents.1 documents.2)
          (sectionBlocks name port documents'.1 documents'.2) ↔
        SameDocument documents.1 documents'.1) := by
  obtain ⟨config, secureConfig⟩ := documents
  obtain ⟨config', secureConfig'⟩ := documents'
  dsimp only at hempty hsecure ⊢
  have hkeys : ∀ {l l' : KdlDocument}, List.Forall₂ SameNode l l' → List.Forall₂ SameKey l l' :=
    fun h => h.imp fun _ _ => SameNode.nodeKey_eq
  have hback : List.Forall₂ SameNode (secureConfig.map (block (secureName name port))).toList
      (secureConfig'.map (block (secureName name port))).toList := by
    cases hsecure with
    | none => exact .nil
    | some hsame => exact .cons (sameNode_blocks.2 hsame) .nil
  rw [sectionBlocks, sectionBlocks]
  by_cases hnil : config = []
  · have hnil' := hempty.1 hnil
    subst hnil
    subst hnil'
    exact ⟨hkeys hback, iff_of_true hback (SameDocument.refl [])⟩
  · have hnil' := mt hempty.2 hnil
    rw [if_neg (by simpa using hnil), if_neg (by simpa using hnil')]
    refine ⟨.cons rfl (hkeys hback), ?_⟩
    rw [List.singleton_append, List.singleton_append, List.forall₂_cons, and_iff_left hback, sameNode_blocks]

/-- The headers of the global section are those that the hosts inherit. -/
theorem lookup_globalHeaders {yaml : Yaml} (hunique : (yaml.index "global").UniqueKeys) :
    (fun name => (obtainHostConfiguration order modules (yaml.index "global") ∅).2.lookup name) =
      globalHeaders yaml := by
  funext name
  rw [obtainHostConfiguration_eq]
  change ((readSection order modules (yaml.index "global") ∅).customHeaders.lookup name : Option Str) = _
  rw [customHeaders_readSection hunique, lookup_insertHeaders]
  rfl

/-- The blocks of a host that has a name. -/
def hostBlocks (order : HeaderOrder) (modules : List Str) (port : UInt16) (customHeaders : HashMap Str Str)
    (host : Yaml) : KdlDocument :=
  match hostName host with
  | none => []
  | some name =>
      sectionBlocks name port (sectionDocuments order modules host customHeaders).1
        (sectionDocuments order modules host customHeaders).2

/-- The document is the global block, those of the SNI hostnames, of the global section and of the hosts. -/
theorem convertYamlToKdl_eq (yaml : Yaml) : convertYamlToKdl order yaml =
    ((obtainGlobalConfiguration yaml).1 :: (obtainGlobalConfiguration yaml).2.1) ++
      (sectionBlocks "*".toList (obtainGlobalConfiguration yaml).2.2.2
          (sectionDocuments order (obtainGlobalConfiguration yaml).2.2.1 (yaml.index "global") ∅).1
          (sectionDocuments order (obtainGlobalConfiguration yaml).2.2.1 (yaml.index "global") ∅).2 ++
        (yaml.sections "hosts").flatMap
          (hostBlocks order (obtainGlobalConfiguration yaml).2.2.1 (obtainGlobalConfiguration yaml).2.2.2
            (obtainHostConfiguration order (obtainGlobalConfiguration yaml).2.2.1
              (yaml.index "global") ∅).2)) := by
  rw [← List.append_assoc]
  rfl

theorem hostName_reordered {host host' : Yaml} (h : Reordered host host') :
    hostName host = hostName host' := by
  have hdomain : host.index "domain" = host'.index "domain" := h.index_eq (by decide)
  have hip : host.index "ip" = host'.index "ip" := h.index_eq (by decide)
  rw [hostName, hostName, hdomain, hip]

/-- A section that inherits the same headers has the same headers. -/
theorem inForce_reordered {value value' : Yaml} (h : Reordered value value')
    {inherited inherited' : Str → Option Str}
    (hinherited : inherited = inherited') : inForce value inherited = inForce value' inherited' := by
  funext name
  rw [inForce, inForce, Yaml.customHeader, Yaml.customHeader, hinherited, h.index_eq (by decide)]

/-- The blocks of the global section or of a host. -/
theorem forall₂_blocks_iff {value value' : Yaml} (h : Reordered value value') {name : Str} {port : UInt16}
    {customHeaders customHeaders' : HashMap Str Str}
    (hheaders : (fun name => customHeaders.lookup name) = fun name => customHeaders'.lookup name) :
    List.Forall₂ SameKey
        (sectionBlocks name port (sectionDocuments order modules value customHeaders).1
          (sectionDocuments order modules value customHeaders).2)
        (sectionBlocks name port (sectionDocuments order' modules value' customHeaders').1
          (sectionDocuments order' modules value' customHeaders').2) ∧
      (List.Forall₂ SameNode
          (sectionBlocks name port (sectionDocuments order modules value customHeaders).1
            (sectionDocuments order modules value customHeaders).2)
          (sectionBlocks name port (sectionDocuments order' modules value' customHeaders').1
            (sectionDocuments order' modules value' customHeaders').2) ↔
        HeadersAlike value value' (fun name => customHeaders.lookup name)
          fun name => customHeaders'.lookup name) := by
  have hempty := @document_eq_nil_iff order order' modules _ _ h customHeaders customHeaders'
    fun name => congrFun (inForce_reordered h hheaders) name
  obtain ⟨hkeys, hiff⟩ := @forall₂_sectionBlocks_iff name port _ _ hempty
    (sameSecure value h customHeaders customHeaders')
  exact ⟨hkeys, hiff.trans (sameDocument_iff_headersAlike value h customHeaders customHeaders')⟩

/-- The blocks of a host. -/
theorem forall₂_hostBlocks_iff {host host' : Yaml} (h : Reordered host host') {port : UInt16}
    {customHeaders customHeaders' : HashMap Str Str}
    (hheaders : (fun name => customHeaders.lookup name) = fun name => customHeaders'.lookup name) :
    List.Forall₂ SameKey (hostBlocks order modules port customHeaders host)
        (hostBlocks order' modules port customHeaders' host') ∧
      (List.Forall₂ SameNode (hostBlocks order modules port customHeaders host)
          (hostBlocks order' modules port customHeaders' host') ↔
        ((hostName host).isSome = true → HeadersAlike host host' (fun name => customHeaders.lookup name)
          fun name => customHeaders'.lookup name)) := by
  rw [hostBlocks, hostBlocks, ← hostName_reordered h]
  cases hostName host with
  | none => exact ⟨.nil, iff_of_true .nil fun hname => absurd hname Bool.false_ne_true⟩
  | some name =>
      obtain ⟨hkeys, hiff⟩ := @forall₂_blocks_iff order order' modules _ _ h name port _ _ hheaders
      exact ⟨hkeys, hiff.trans ⟨fun halike _ => halike, fun halike => halike rfl⟩⟩

end Blocks

/-- **Migration depends on the order of keys** in the custom headers of locations and error configurations
only. -/
theorem sameDocument_convert_iff (order order' : HeaderOrder) {yaml yaml' : Yaml}
    (h : ReorderedConfiguration yaml yaml') :
    SameDocument (convertYamlToKdl order yaml) (convertYamlToKdl order' yaml') ↔ HeadersStay yaml yaml' := by
  obtain ⟨hglobals, hhosts⟩ := h
  obtain ⟨hglobal, hrest⟩ := obtainGlobalConfiguration_reordered hglobals
  rw [convertYamlToKdl_eq, convertYamlToKdl_eq, ← hrest]
  have hheaders : globalHeaders yaml = globalHeaders yaml' := inForce_reordered hglobals rfl
  have hfirst := @lookup_globalHeaders order (obtainGlobalConfiguration yaml).2.2.1 yaml hglobals.uniqueKeys.1
  have hsecond := @lookup_globalHeaders order' (obtainGlobalConfiguration yaml).2.2.1 yaml'
    hglobals.uniqueKeys.2
  generalize (obtainHostConfiguration order (obtainGlobalConfiguration yaml).2.2.1
    (yaml.index "global") ∅).2 = customHeaders at hfirst ⊢
  generalize (obtainHostConfiguration order' (obtainGlobalConfiguration yaml).2.2.1
    (yaml'.index "global") ∅).2 = customHeaders' at hsecond ⊢
  generalize (obtainGlobalConfiguration yaml).2.2.1 = modules at *
  generalize (obtainGlobalConfiguration yaml).2.2.2 = port at *
  generalize (obtainGlobalConfiguration yaml).2.1 = sni at *
  -- the blocks stand in one order, so they are compared one by one
  have hfront : List.Forall₂ SameNode ((obtainGlobalConfiguration yaml).1 :: sni)
      ((obtainGlobalConfiguration yaml').1 :: sni) :=
    .cons hglobal (List.forall₂_same.2 fun node _ => SameNode.refl node)
  obtain ⟨hsectionKeys, hsection⟩ :=
    @forall₂_blocks_iff order order' modules _ _ hglobals "*".toList port ∅ ∅ rfl
  have hlookup : (fun name => customHeaders.lookup name) = fun name => customHeaders'.lookup name := by
    rw [hfirst, hsecond, hheaders]
  have hblocks : List.Forall₂ (fun host host' =>
      List.Forall₂ SameKey (hostBlocks order modules port customHeaders host)
          (hostBlocks order' modules port customHeaders' host') ∧
        (List.Forall₂ SameNode (hostBlocks order modules port customHeaders host)
            (hostBlocks order' modules port customHeaders' host') ↔
          ((hostName host).isSome = true →
            HeadersAlike host host' (globalHeaders yaml) (globalHeaders yaml'))))
      (yaml.sections "hosts") (yaml'.sections "hosts") := by
    refine hhosts.imp fun host host' hhost => ?_
    rw [← hfirst, ← hsecond]
    exact forall₂_hostBlocks_iff hhost hlookup
  have hlength : List.Forall₂ (fun host host' =>
      (hostBlocks order modules port customHeaders host).length =
        (hostBlocks order' modules port customHeaders' host').length)
      (yaml.sections "hosts") (yaml'.sections "hosts") := hblocks.imp fun _ _ h => h.1.length_eq
  have hkeys := List.rel_append (hfront.imp fun _ _ => SameNode.nodeKey_eq)
    (List.rel_append hsectionKeys ((forall₂_flatMap_iff hlength).2 (hblocks.imp fun _ _ h => h.1)))
  rw [sameDocument_iff_of_sameKeys hkeys, forall₂_append_iff hfront.length_eq, and_iff_right hfront,
    forall₂_append_iff hsectionKeys.length_eq, hsection, forall₂_flatMap_iff hlength, HeadersStay]
  refine and_congr Iff.rfl ?_
  rw [List.forall₂_iff_zip]
  refine (and_iff_right hhosts.length_eq).trans ⟨fun h pair hpair => ?_, fun h {a b} hpair => ?_⟩
  · exact (List.forall₂_zip hblocks hpair).2.1 (h hpair)
  · exact (List.forall₂_zip hblocks hpair).2.2 (h (a, b) hpair)

/-! ## One host with a header and a location -/

theorem not_hasSections {entry : Yaml × Yaml} (h : entry.2.asVec = none) : ¬HasSections entry := by
  rintro ⟨key, -, items, rfl⟩
  cases h

/-- A table that is iterated in the order of its entries. -/
def insertionOrder : HeaderOrder := ⟨id, fun l => List.Perm.refl l⟩

/-- A location for all paths. -/
def rootLocation : Yaml := .hash [(.string "path".toList, .string "/".toList)]

/-- The domain of the host. -/
def domainEntry : Yaml × Yaml := (.string "domain".toList, .string "a".toList)

/-- A custom header. -/
def headerEntry : Yaml × Yaml :=
  (.string "customHeaders".toList, .hash [(.string "X".toList, .string "1".toList)])

/-- The location in the host. -/
def locationEntry : Yaml × Yaml := (.string "locations".toList, .array [rootLocation])

/-- A configuration of one host. -/
def oneHost (entries : List (Yaml × Yaml)) : Yaml :=
  .hash [(.string "hosts".toList, .array [.hash entries])]

theorem reordered_rootLocation : Reordered rootLocation rootLocation :=
  .mapping (List.nodup_singleton _) (.cons (.other (not_hasSections rfl)) .nil) (List.Perm.refl _)

theorem reordered_oneHost {entries : List (Yaml × Yaml)}
    (hperm : [domainEntry, headerEntry, locationEntry].Perm entries) :
    ReorderedConfiguration (oneHost [domainEntry, headerEntry, locationEntry]) (oneHost entries) where
  globals := .other rfl
  hosts := by
    have hnames : ["domain".toList, "customHeaders".toList, "locations".toList].Nodup := by decide
    have hunique : (["domain".toList, "customHeaders".toList, "locations".toList].map Yaml.string).Nodup :=
      hnames.map fun _ _ => Yaml.string.inj
    refine .cons (.mapping hunique ?_ hperm) .nil
    exact .cons (.other (not_hasSections rfl)) (.cons (.other (not_hasSections rfl))
      (.cons (.sections List.mem_cons_self (.cons reordered_rootLocation .nil)) .nil))

/-- The header may stand in front of the domain. -/
theorem headerFirst_sameDocument :
    SameDocument (convertYamlToKdl insertionOrder (oneHost [domainEntry, headerEntry, locationEntry]))
      (convertYamlToKdl insertionOrder (oneHost [headerEntry, domainEntry, locationEntry])) := by
  refine (sameDocument_convert_iff insertionOrder insertionOrder
    (reordered_oneHost (List.Perm.swap _ _ _))).2 ⟨headersAlike_refl _ _, ?_⟩
  intro pair hpair _
  rw [List.mem_singleton.1 hpair]
  refine .intro (fun _ => rfl) (fun pair hpair _ => ?_) fun pair hpair => absurd hpair List.not_mem_nil
  rw [List.mem_singleton.1 hpair]
  exact headersAlike_refl rootLocation _

/-- The location loses the header that stands behind it. -/
theorem headerLast_not_sameDocument :
    ReorderedConfiguration (oneHost [domainEntry, headerEntry, locationEntry])
        (oneHost [domainEntry, locationEntry, headerEntry]) ∧
      ¬SameDocument (convertYamlToKdl insertionOrder (oneHost [domainEntry, headerEntry, locationEntry]))
        (convertYamlToKdl insertionOrder (oneHost [domainEntry, locationEntry, headerEntry])) := by
  refine ⟨reordered_oneHost (.cons _ (List.Perm.swap _ _ _)), fun h => ?_⟩
  have hbefore : convertYamlToKdl insertionOrder (oneHost [domainEntry, headerEntry, locationEntry]) =
      [(obtainGlobalConfiguration .null).1, block "a".toList
        [locationNode "/".toList [headerNode "X".toList "1".toList], headerNode "X".toList "1".toList]] := rfl
  have hbehind : convertYamlToKdl insertionOrder (oneHost [domainEntry, locationEntry, headerEntry]) =
      [(obtainGlobalConfiguration .null).1, block "a".toList
        [locationNode "/".toList [], headerNode "X".toList "1".toList]] := rfl
  rw [hbefore, hbehind] at h
  have hblocks := (sameDocument_iff_of_sameKeys (by exact .cons rfl (.cons rfl .nil))).1 h
  have hhost := sameNode_blocks.1 (List.forall₂_cons.1 (List.forall₂_cons.1 hblocks).2).1
  have hnodes := (sameDocument_iff_of_sameKeys (by exact .cons rfl (.cons rfl .nil))).1 hhost
  have hlocation := sameNode_block_iff.1 (List.forall₂_cons.1 hnodes).1
  exact absurd (hlocation.nil_iff.2 rfl) (List.cons_ne_nil _ _)

end Ferron.Yaml2Kdl
