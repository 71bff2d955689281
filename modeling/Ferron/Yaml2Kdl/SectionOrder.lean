import Ferron.Yaml2Kdl.SameDocument

/-!
# Sections with their keys in another order

A section is reordered when its keys are permuted, and so are those of the sections in it (`Reordered`).
All that a section makes stays the same (`SameDocument`), except for the custom headers of the sections in it,
which depend on where `customHeaders` stands: `HeadersAlike` says that these are the same in both orders.
-/

set_option autoImplicit false

namespace Ferron.Yaml2Kdl

open Ferron.Config Ferron.Lib.KeyedList

/-! ## Reordered sections -/

/-- The properties that have sections in them. -/
def sectionKeys : List String := ["locations", "errorConfig"]

/-- An entry with sections in it. -/
def HasSections (entry : Yaml × Yaml) : Prop :=
  ∃ key ∈ sectionKeys, ∃ items, entry = (.string key.toList, .array items)

mutual

/-- A section with its keys in another order, and so the sections in it. The keys of a mapping are
different. -/
inductive Reordered : Yaml → Yaml → Prop where
  | other {value : Yaml} (hvalue : value.asHash = none) : Reordered value value
  | mapping {entries middle entries' : List (Yaml × Yaml)} (hunique : (entries.map Prod.fst).Nodup)
      (hentries : List.Forall₂ ReorderedEntry entries middle) (hperm : middle.Perm entries') :
      Reordered (.hash entries) (.hash entries')

/-- An entry with its sections reordered. -/
inductive ReorderedEntry : Yaml × Yaml → Yaml × Yaml → Prop where
  | other {entry : Yaml × Yaml} (hentry : ¬HasSections entry) : ReorderedEntry entry entry
  | sections {key : String} (hkey : key ∈ sectionKeys) {items items' : List Yaml}
      (hitems : List.Forall₂ Reordered items items') :
      ReorderedEntry (.string key.toList, .array items) (.string key.toList, .array items')

end

namespace Yaml

theorem get_eq_some_of_mem {entries : List (Yaml × Yaml)} (hunique : (entries.map Prod.fst).Nodup)
    {key : String} {value : Yaml} (h : (string key.toList, value) ∈ entries) :
    get entries key = some value := by
  induction entries with
  | nil => exact absurd h List.not_mem_nil
  | cons entry entries ih =>
      rw [List.map_cons, List.nodup_cons] at hunique
      rcases List.mem_cons.1 h with rfl | hmem
      · exact get_cons_of_eq rfl entries
      · rw [get_cons_of_ne _ entries]
        · exact ih hunique.2 hmem
        · intro heq
          exact hunique.1 (asStr_eq_some.1 heq ▸ List.mem_map_of_mem hmem)

theorem mem_of_get {entries : List (Yaml × Yaml)} {key : String} {value : Yaml}
    (h : get entries key = some value) : (string key.toList, value) ∈ entries := by
  obtain ⟨back, hback⟩ := eq_append_of_get h
  rw [hback]
  exact List.mem_append_right _ List.mem_cons_self

theorem get_perm {entries entries' : List (Yaml × Yaml)} (hunique : (entries.map Prod.fst).Nodup)
    (hperm : entries.Perm entries') (key : String) : get entries key = get entries' key := by
  have hunique' := (hperm.map Prod.fst).nodup_iff.1 hunique
  cases hget : get entries key with
  | some value => exact (get_eq_some_of_mem hunique' (hperm.mem_iff.1 (mem_of_get hget))).symm
  | none =>
      cases hget' : get entries' key with
      | none => rfl
      | some value =>
          rw [get_eq_some_of_mem hunique (hperm.mem_iff.2 (mem_of_get hget'))] at hget
          cases hget

end Yaml

theorem ReorderedEntry.fst_eq {entry entry' : Yaml × Yaml} (h : ReorderedEntry entry entry') :
    entry.1 = entry'.1 := by
  cases h <;> rfl

/-- An entry is as it was, or its sections are reordered. -/
theorem ReorderedEntry.values {key : String} {value value' : Yaml}
    (h : ReorderedEntry (.string key.toList, value) (.string key.toList, value')) :
    ¬HasSections (.string key.toList, value) ∧ value = value' ∨
      key ∈ sectionKeys ∧ ∃ items items', value = .array items ∧ value' = .array items' ∧
        List.Forall₂ Reordered items items' := by
  generalize hentry : (Yaml.string key.toList, value) = entry at h
  generalize hentry' : (Yaml.string key.toList, value') = entry' at h
  cases h with
  | other hnone =>
      subst hentry
      exact .inl ⟨hnone, (Prod.ext_iff.1 hentry').2.symm⟩
  | @sections other hmem items items' hitems =>
      have hkey := String.toList_inj.1 (Yaml.string.inj (Prod.ext_iff.1 hentry).1)
      exact .inr ⟨hkey ▸ hmem, items, items', (Prod.ext_iff.1 hentry).2, (Prod.ext_iff.1 hentry').2, hitems⟩

theorem keys_eq {entries middle : List (Yaml × Yaml)} (h : List.Forall₂ ReorderedEntry entries middle) :
    entries.map Prod.fst = middle.map Prod.fst := by
  rw [← List.forall₂_eq_eq_eq, List.forall₂_map_left_iff, List.forall₂_map_right_iff]
  exact h.imp fun _ _ => ReorderedEntry.fst_eq

/-- What stands for a key in both orders. -/
theorem get_reordered {entries middle : List (Yaml × Yaml)} (h : List.Forall₂ ReorderedEntry entries middle)
    (key : String) :
    Option.Rel (fun value value' => ReorderedEntry (.string key.toList, value) (.string key.toList, value'))
      (Yaml.get entries key) (Yaml.get middle key) := by
  induction h with
  | nil => exact .none
  | @cons entry entry' entries middle hentry _ ih =>
      by_cases hkey : entry.1.asStr = some key.toList
      · rw [Yaml.get_cons_of_eq hkey, Yaml.get_cons_of_eq (hentry.fst_eq ▸ hkey)]
        obtain ⟨own, value⟩ := entry
        obtain ⟨own', value'⟩ := entry'
        have hown := Yaml.asStr_eq_some.1 hkey
        have hown' := hentry.fst_eq
        dsimp only at hown hown'
        subst hown
        subst hown'
        exact .some hentry
      · rw [Yaml.get_cons_of_ne hkey, Yaml.get_cons_of_ne (hentry.fst_eq ▸ hkey)]
        exact ih

namespace Reordered

variable {value value' : Yaml} (h : Reordered value value')

include h

theorem uniqueKeys : value.UniqueKeys ∧ value'.UniqueKeys := by
  cases h with
  | other hvalue =>
      have hnil : value.UniqueKeys := by
        rw [Yaml.UniqueKeys, Yaml.properties, hvalue]
        exact List.nodup_nil
      exact ⟨hnil, hnil⟩
  | mapping hunique hentries hperm =>
      refine ⟨hunique, (hperm.map Prod.fst).nodup_iff.1 ?_⟩
      rw [← keys_eq hentries]
      exact hunique

theorem get_rel (key : String) :
    Option.Rel (fun value value' => ReorderedEntry (.string key.toList, value) (.string key.toList, value'))
      (Yaml.get value.properties key) (Yaml.get value'.properties key) := by
  cases h with
  | other hvalue =>
      rw [Yaml.properties, hvalue]
      exact .none
  | @mapping entries middle entries' hunique hentries hperm =>
      have hunique' : (middle.map Prod.fst).Nodup := keys_eq hentries ▸ hunique
      have hget : Yaml.get (Yaml.hash entries').properties key = Yaml.get middle key :=
        (Yaml.get_perm hunique' hperm key).symm
      rw [hget]
      exact get_reordered hentries key

/-- Other properties have the same values. -/
theorem get_eq {key : String} (hkey : key ∉ sectionKeys) :
    Yaml.get value.properties key = Yaml.get value'.properties key := by
  have hrel := h.get_rel key
  revert hrel
  generalize Yaml.get value.properties key = found
  generalize Yaml.get value'.properties key = found'
  intro hrel
  cases hrel with
  | none => rfl
  | some hentry =>
      rcases hentry.values with ⟨-, heq⟩ | ⟨hmem, -⟩
      · exact congrArg some heq
      · exact absurd hmem hkey

theorem index_eq {key : String} (hkey : key ∉ sectionKeys) : value.index key = value'.index key := by
  rw [Yaml.index_eq, Yaml.index_eq, h.get_eq hkey]

/-- The sections in it are reordered one by one. -/
theorem sections {key : String} (hkey : key ∈ sectionKeys) :
    List.Forall₂ Reordered (value.sections key) (value'.sections key) := by
  rw [Yaml.sections, Yaml.sections, Yaml.index_eq, Yaml.index_eq]
  have hrel := h.get_rel key
  revert hrel
  generalize Yaml.get value.properties key = found
  generalize Yaml.get value'.properties key = found'
  intro hrel
  cases hrel with
  | none => exact .nil
  | @some found found' hentry =>
      rcases hentry.values with ⟨hnone, rfl⟩ | ⟨-, items, items', rfl, rfl, hitems⟩
      · cases found with
        | array items => exact absurd ⟨key, hkey, items, rfl⟩ hnone
        | _ => exact .nil
      · exact hitems

end Reordered

theorem Yaml.mem_of_mem_sections {value item : Yaml} {key : String} (h : item ∈ value.sections key) :
    ∃ items, (string key.toList, array items) ∈ value.properties ∧ item ∈ items := by
  rw [sections, index_eq] at h
  cases hget : get value.properties key with
  | none =>
      rw [hget] at h
      exact absurd h List.not_mem_nil
  | some found =>
      rw [hget, Option.getD_some] at h
      cases found with
      | array items => exact ⟨items, mem_of_get hget, h⟩
      | _ => exact absurd h List.not_mem_nil

/-! ## Custom headers -/

/-- The header that an entry of `customHeaders` sets for a name. -/
def setBy (name : Str) (entry : Yaml × Yaml) : Option Str :=
  if entry.1.asStr = some name then entry.2.asStr else none

/-- The header that `customHeaders` sets for a name. -/
def Yaml.customHeader (value : Yaml) (name : Str) : Option Str :=
  (value.index "customHeaders").properties.reverse.findSome? (setBy name)

/-- The headers of a section that inherits some. -/
def inForce (value : Yaml) (inherited : Str → Option Str) (name : Str) : Option Str :=
  (value.customHeader name).or (inherited name)

/-- The headers that the sections of a property inherit: those that the section around them sets are among
them when they stand in front of the property. -/
def handedOn (value : Yaml) (key : String) (inherited : Str → Option Str) : Str → Option Str :=
  if value.precedes "customHeaders" key then inForce value inherited else inherited

/-- Two orders of a section give it the same headers, and so the locations with a path and the error
configurations in it. -/
inductive HeadersAlike : Yaml → Yaml → (Str → Option Str) → (Str → Option Str) → Prop where
  | intro {value value' : Yaml} {inherited inherited' : Str → Option Str}
      (own : ∀ name, inForce value inherited name = inForce value' inherited' name)
      (locations : ∀ pair ∈ (value.sections "locations").zip (value'.sections "locations"),
        (pair.1.index "path").asStr.isSome = true →
          HeadersAlike pair.1 pair.2 (handedOn value "locations" inherited)
            (handedOn value' "locations" inherited'))
      (errorConfigs : ∀ pair ∈ (value.sections "errorConfig").zip (value'.sections "errorConfig"),
        HeadersAlike pair.1 pair.2 (handedOn value "errorConfig" inherited)
          (handedOn value' "errorConfig" inherited')) :
      HeadersAlike value value' inherited inherited'

theorem headersAlike_iff {value value' : Yaml} {inherited inherited' : Str → Option Str} :
    HeadersAlike value value' inherited inherited' ↔
      (∀ name, inForce value inherited name = inForce value' inherited' name) ∧
        (∀ pair ∈ (value.sections "locations").zip (value'.sections "locations"),
          (pair.1.index "path").asStr.isSome = true →
            HeadersAlike pair.1 pair.2 (handedOn value "locations" inherited)
              (handedOn value' "locations" inherited')) ∧
        ∀ pair ∈ (value.sections "errorConfig").zip (value'.sections "errorConfig"),
          HeadersAlike pair.1 pair.2 (handedOn value "errorConfig" inherited)
            (handedOn value' "errorConfig" inherited') := by
  constructor
  · rintro ⟨own, locations, errorConfigs⟩
    exact ⟨own, locations, errorConfigs⟩
  · rintro ⟨own, locations, errorConfigs⟩
    exact ⟨own, locations, errorConfigs⟩

/-- A section has the same headers as itself. -/
theorem headersAlike_refl (value : Yaml) : ∀ inherited, HeadersAlike value value inherited inherited := by
  induction value using Yaml.sectionRec with
  | step value ih =>
      intro inherited
      have hsection : ∀ key, ∀ pair ∈ (value.sections key).zip (value.sections key),
          HeadersAlike pair.1 pair.2 (handedOn value key inherited) (handedOn value key inherited) := by
        intro key pair hpair
        rw [List.zip, List.zipWith_self, List.mem_map] at hpair
        obtain ⟨item, hmem, rfl⟩ := hpair
        obtain ⟨items, hentry, hitem⟩ := Yaml.mem_of_mem_sections hmem
        exact ih _ items hentry item hitem _
      exact .intro (fun _ => rfl) (fun pair hpair _ => hsection "locations" pair hpair)
        (hsection "errorConfig")

/-- The table of a section is that of its headers in force. -/
theorem lookup_insertHeaders (value : Yaml) (customHeaders : HashMap Str Str) (name : Str) :
    (insertHeaders (value.index "customHeaders") customHeaders).lookup name =
      inForce value (fun name => customHeaders.lookup name) name := by
  rw [insertHeaders, inForce, Yaml.customHeader]
  induction (value.index "customHeaders").properties using List.reverseRecOn with
  | nil => rfl
  | append_singleton entries entry ih =>
      rw [List.foldl_append, List.foldl_cons, List.foldl_nil, List.reverse_append, List.reverse_singleton,
        List.singleton_append, List.findSome?_cons, setBy]
      obtain ⟨key, header⟩ := entry
      dsimp only
      by_cases hname : key.asStr = some name
      · rw [if_pos hname, hname]
        cases header.asStr with
        | none => exact ih
        | some text => exact AList.lookup_insert _
      · rw [if_neg hname]
        dsimp only
        rw [← ih]
        cases hkey : key.asStr with
        | none => rfl
        | some own =>
            cases header.asStr with
            | none => rfl
            | some text => exact AList.lookup_insert_ne fun heq => hname (heq ▸ hkey)

theorem lookup_headersFor (value : Yaml) (key : String) (customHeaders : HashMap Str Str) :
    (fun name => (headersFor value key customHeaders).lookup name) =
      handedOn value key fun name => customHeaders.lookup name := by
  funext name
  rw [headersFor, handedOn]
  split
  · exact lookup_insertHeaders value customHeaders name
  · rfl

theorem property_not_mem_sectionKeys {translation : Translation} (h : translation ∈ hostTranslations) :
    translation.property ∉ sectionKeys := by
  obtain ⟨hlocations, herror⟩ := property_ne_sections translation h
  exact List.not_mem_cons_of_ne_of_not_mem hlocations
    (List.not_mem_cons_of_ne_of_not_mem herror List.not_mem_nil)

/-! ## What is for HTTPS -/

section Sections

variable {order order' : HeaderOrder} {modules : List Str}

theorem sectionDocuments_fst (value : Yaml) (customHeaders : HashMap Str Str) :
    (sectionDocuments order modules value customHeaders).1 =
      ((readSection order modules value customHeaders).finish order modules).1.1 := by
  rw [sectionDocuments, obtainHostConfiguration_eq]

theorem sectionDocuments_snd (value : Yaml) (customHeaders : HashMap Str Str) :
    (sectionDocuments order modules value customHeaders).2 =
      if (readSection order modules value customHeaders).secureNodes.isEmpty then none
      else some (readSection order modules value customHeaders).secureNodes := by
  rw [sectionDocuments, obtainHostConfiguration_eq]
  rfl

/-- The locations for HTTPS are those of the sections. -/
theorem sameDocument_secureLocations {customHeaders customHeaders' : HashMap Str Str}
    {items items' : List Yaml}
    (hitems : List.Forall₂ (fun location location' => location.index "path" = location'.index "path" ∧
      Option.Rel SameDocument (sectionDocuments order modules location customHeaders).2
        (sectionDocuments order' modules location' customHeaders').2) items items') :
    SameDocument (items.flatMap (secureLocationNodes order modules customHeaders))
      (items'.flatMap (secureLocationNodes order' modules customHeaders')) := by
  have hone : List.Forall₂ (fun location location' =>
      List.Forall₂ SameNode (secureLocationNodes order modules customHeaders location)
        (secureLocationNodes order' modules customHeaders' location')) items items' := by
    refine hitems.imp fun location location' ⟨hpath, hsecure⟩ => ?_
    rw [secureLocationNodes, secureLocationNodes, ← hpath]
    cases (location.index "path").asStr with
    | none => exact .nil
    | some path =>
        generalize (sectionDocuments order modules location customHeaders).2 = secure at hsecure ⊢
        generalize (sectionDocuments order' modules location' customHeaders').2 = secure' at hsecure ⊢
        cases hsecure with
        | none => exact .nil
        | some hsame => exact .cons (sameNode_block_iff.2 hsame) .nil
  refine sameDocument_of_forall₂ ((forall₂_flatMap_iff ?_).2 hone)
  exact hone.imp fun _ _ => List.Forall₂.length_eq

/-- What is for HTTPS does not depend on the order, whatever the headers are. -/
theorem sameSecure (value : Yaml) : ∀ {value' : Yaml}, Reordered value value' →
    ∀ customHeaders customHeaders' : HashMap Str Str,
      Option.Rel SameDocument (sectionDocuments order modules value customHeaders).2
        (sectionDocuments order' modules value' customHeaders').2 := by
  induction value using Yaml.sectionRec with
  | step value ih =>
      intro value' h customHeaders customHeaders'
      obtain ⟨hunique, hunique'⟩ := h.uniqueKeys
      have hsame : SameDocument (readSection order modules value customHeaders).secureNodes
          (readSection order' modules value' customHeaders').secureNodes := by
        refine sameDocument_iff_named.2 fun name => ?_
        by_cases hlocation : name = "location".toList
        · rw [hlocation, named_secureLocations hunique, named_secureLocations hunique']
          refine sameDocument_secureLocations (forall₂_of_mem (h.sections List.mem_cons_self) ?_)
          intro location hlocation location' hreordered
          obtain ⟨items, hentry, hitem⟩ := Yaml.mem_of_mem_sections hlocation
          exact ⟨hreordered.index_eq (by decide), ih _ _ hentry _ hitem hreordered _ _⟩
        · by_cases hproxy : name = "proxy".toList
          · rw [hproxy, named_secureProxies hunique, named_secureProxies hunique', h.index_eq (by decide)]
            exact SameDocument.refl _
          · rw [named_secure_readSection_eq_nil hproxy hlocation,
              named_secure_readSection_eq_nil hproxy hlocation]
            exact SameDocument.refl _
      rw [sectionDocuments_snd, sectionDocuments_snd]
      by_cases hempty : (readSection order modules value customHeaders).secureNodes = []
      · rw [hempty, hsame.nil_iff.1 hempty]
        exact .none
      · rw [if_neg (by simpa using hempty), if_neg (by simpa using mt hsame.nil_iff.2 hempty)]
        exact .some hsame

/-! ## What is for all ports -/

theorem length_locationNodes (customHeaders customHeaders' : HashMap Str Str) {items items' : List Yaml}
    (hitems : List.Forall₂ Reordered items items') :
    List.Forall₂ (fun location location' =>
      (locationNodes order modules customHeaders location).length =
        (locationNodes order' modules customHeaders' location').length) items items' := by
  refine hitems.imp fun location location' h => ?_
  rw [locationNodes, locationNodes, ← h.index_eq (by decide)]
  cases (location.index "path").asStr <;> rfl

/-- The locations are the same when those that have a path are. -/
theorem sameDocument_locations_iff {customHeaders customHeaders' : HashMap Str Str} {items items' : List Yaml}
    (hitems : List.Forall₂ Reordered items items') :
    SameDocument (items.flatMap (locationNodes order modules customHeaders))
        (items'.flatMap (locationNodes order' modules customHeaders')) ↔
      ∀ pair ∈ items.zip items', (pair.1.index "path").asStr.isSome = true →
        SameDocument (sectionDocuments order modules pair.1 customHeaders).1
          (sectionDocuments order' modules pair.2 customHeaders').1 := by
  have hpaths : List.Forall₂ (fun location location' => location.index "path" = location'.index "path")
      items items' := hitems.imp fun _ _ h => h.index_eq (by decide)
  rw [sameDocument_iff_forall₂ (by decide) (fun _ => name_of_mem_locationNodes)
    (fun _ => name_of_mem_locationNodes),
    forall₂_flatMap_iff (length_locationNodes customHeaders customHeaders' hitems), List.forall₂_iff_zip]
  refine (and_iff_right hitems.length_eq).trans ⟨fun h pair hpair hpath => ?_, fun h {a b} hpair => ?_⟩
  · have hpair' : (pair.1, pair.2) ∈ items.zip items' := hpair
    have hone := h hpair'
    have hsame := List.forall₂_zip hpaths hpair'
    obtain ⟨path, hpath⟩ := Option.isSome_iff_exists.1 hpath
    rw [locationNodes, locationNodes, ← hsame, hpath] at hone
    exact sameNode_block_iff.1 (List.forall₂_cons.1 hone).1
  · have hsame := List.forall₂_zip hpaths hpair
    rw [locationNodes, locationNodes, ← hsame]
    cases hpath : (a.index "path").asStr with
    | none => exact .nil
    | some path =>
        exact .cons (sameNode_block_iff.2 (h (a, b) hpair (by rw [hpath]; rfl))) .nil

theorem sameNode_secureErrorConfigs (customHeaders customHeaders' : HashMap Str Str)
    {items items' : List Yaml}
    (hitems : List.Forall₂ Reordered items items') :
    List.Forall₂ (fun errorConfig errorConfig' =>
      List.Forall₂ SameNode
        ((sectionDocuments order modules errorConfig customHeaders).2.map
          (errorConfigNode (errorConfig.index "scode").asI64)).toList
        ((sectionDocuments order' modules errorConfig' customHeaders').2.map
          (errorConfigNode (errorConfig'.index "scode").asI64)).toList) items items' := by
  refine hitems.imp fun errorConfig errorConfig' h => ?_
  have hrel := @sameSecure order order' modules errorConfig _ h customHeaders customHeaders'
  rw [← h.index_eq (by decide)]
  generalize (sectionDocuments order modules errorConfig customHeaders).2 = secure at hrel ⊢
  generalize (sectionDocuments order' modules errorConfig' customHeaders').2 = secure' at hrel ⊢
  cases hrel with
  | none => exact .nil
  | some hsame => exact .cons (sameNode_block_iff.2 hsame) .nil

theorem length_errorConfigNodes (customHeaders customHeaders' : HashMap Str Str) {items items' : List Yaml}
    (hitems : List.Forall₂ Reordered items items') :
    List.Forall₂ (fun errorConfig errorConfig' =>
      (errorConfigNodes order modules customHeaders errorConfig).length =
        (errorConfigNodes order' modules customHeaders' errorConfig').length) items items' := by
  have hsecure := @sameNode_secureErrorConfigs order order' modules customHeaders customHeaders' _ _ hitems
  refine hsecure.imp fun errorConfig errorConfig' h => ?_
  rw [errorConfigNodes, errorConfigNodes, List.length_append, List.length_append, h.length_eq]
  rfl

/-- The error configurations are the same when the parts of them for all ports are. -/
theorem sameDocument_errorConfigs_iff {customHeaders customHeaders' : HashMap Str Str}
    {items items' : List Yaml} (hitems : List.Forall₂ Reordered items items') :
    SameDocument (items.flatMap (errorConfigNodes order modules customHeaders))
        (items'.flatMap (errorConfigNodes order' modules customHeaders')) ↔
      ∀ pair ∈ items.zip items',
        SameDocument (sectionDocuments order modules pair.1 customHeaders).1
          (sectionDocuments order' modules pair.2 customHeaders').1 := by
  rw [sameDocument_iff_forall₂ (by decide) (fun _ => name_of_mem_errorConfigNodes)
    (fun _ => name_of_mem_errorConfigNodes),
    forall₂_flatMap_iff (length_errorConfigNodes customHeaders customHeaders' hitems), List.forall₂_iff_zip]
  have hone : ∀ {a b : Yaml}, (a, b) ∈ items.zip items' →
      (List.Forall₂ SameNode (errorConfigNodes order modules customHeaders a)
          (errorConfigNodes order' modules customHeaders' b) ↔
        SameDocument (sectionDocuments order modules a customHeaders).1
          (sectionDocuments order' modules b customHeaders').1) := by
    intro a b hpair
    have hfront := List.forall₂_zip
      (@sameNode_secureErrorConfigs order order' modules customHeaders customHeaders' _ _ hitems) hpair
    have hscode : a.index "scode" = b.index "scode" :=
      (List.forall₂_zip hitems hpair).index_eq (by decide)
    rw [errorConfigNodes, errorConfigNodes, forall₂_append_iff hfront.length_eq, and_iff_right hfront,
      ← hscode, List.forall₂_cons, and_iff_left .nil]
    exact sameNode_block_iff
  refine (and_iff_right hitems.length_eq).trans ⟨fun h pair hpair => ?_, fun h {a b} hpair => ?_⟩
  · exact (hone hpair).1 (h hpair)
  · exact (hone hpair).2 (h (a, b) hpair)

/-- The nodes of the other names are as before. -/
theorem named_reordered {value value' : Yaml} (h : Reordered value value')
    (customHeaders customHeaders' : HashMap Str Str) {name : Str} (hlocation : name ≠ "location".toList)
    (herror : name ≠ "error_config".toList) :
    named name (readSection order modules value customHeaders).nodes =
      named name (readSection order' modules value' customHeaders').nodes := by
  cases hfind : hostTranslations.find? fun translation => translation.name.toList = name with
  | none =>
      have hmade : madeFrom name = none := by
        rw [madeFrom, if_neg hlocation, if_neg herror, hfind]
        rfl
      rw [named_readSection_eq_nil hmade, named_readSection_eq_nil hmade]
  | some translation =>
      have hmem := List.mem_of_find?_eq_some hfind
      have hname := List.find?_some hfind
      rw [← of_decide_eq_true hname, named_translation h.uniqueKeys.1 _ hmem,
        named_translation h.uniqueKeys.2 _ hmem, h.index_eq (property_not_mem_sectionKeys hmem)]

/-- The nodes of the properties are the same when the locations and the error configurations are. -/
theorem sameDocument_nodes_iff {value value' : Yaml} (h : Reordered value value')
    (customHeaders customHeaders' : HashMap Str Str) :
    SameDocument (readSection order modules value customHeaders).nodes
        (readSection order' modules value' customHeaders').nodes ↔
      SameDocument
          ((value.sections "locations").flatMap
            (locationNodes order modules (headersFor value "locations" customHeaders)))
          ((value'.sections "locations").flatMap
            (locationNodes order' modules (headersFor value' "locations" customHeaders'))) ∧
        SameDocument
          ((value.sections "errorConfig").flatMap
            (errorConfigNodes order modules (headersFor value "errorConfig" customHeaders)))
          ((value'.sections "errorConfig").flatMap
            (errorConfigNodes order' modules (headersFor value' "errorConfig" customHeaders'))) := by
  obtain ⟨hunique, hunique'⟩ := h.uniqueKeys
  rw [sameDocument_iff_named, ← named_locations hunique, ← named_locations hunique',
    ← named_errorConfigs hunique, ← named_errorConfigs hunique']
  refine ⟨fun hall => ⟨hall _, hall _⟩, fun ⟨hlocations, herrors⟩ name => ?_⟩
  by_cases hlocation : name = "location".toList
  · rw [hlocation]
    exact hlocations
  · by_cases herror : name = "error_config".toList
    · rw [herror]
      exact herrors
    · rw [@named_reordered order order' modules _ _ h customHeaders customHeaders' _ hlocation herror]
      exact SameDocument.refl _

theorem ne_header_of_mem {settings : Setting → Option Str} {value : Yaml} {customHeaders : HashMap Str Str}
    {node : KdlNode}
    (h : node ∈ (readSection order modules value customHeaders).nodes ++
      (scgiHandler modules settings).directives) : node.name ≠ "header".toList := by
  rcases List.mem_append.1 h with hmem | hmem
  · have hnone : named "header".toList (readSection order modules value customHeaders).nodes = [] :=
      named_readSection_eq_nil (by decide) value customHeaders
    exact fun hname => List.filter_eq_nil_iff.1 hnone node hmem (decide_eq_true hname)
  · have hhandler := Handlers.mem_of_mem_directives hmem
    rw [scgiHandler] at hhandler
    split at hhandler
    · have hnode : node = directive "scgi" _ := (Prod.ext_iff.1 (List.mem_singleton.1 hhandler)).2
      have hname : "scgi".toList ≠ "header".toList := by decide
      rw [hnode]
      exact hname
    · exact absurd hhandler List.not_mem_nil

theorem settings_reordered {value value' : Yaml} (h : Reordered value value')
    (customHeaders customHeaders' : HashMap Str Str) :
    (readSection order' modules value' customHeaders').settings =
      (readSection order modules value customHeaders).settings := by
  funext setting
  rw [settings_readSection h.uniqueKeys.1, settings_readSection h.uniqueKeys.2,
    h.index_eq (by cases setting <;> decide)]

theorem extensions_reordered {value value' : Yaml} (h : Reordered value value')
    (customHeaders customHeaders' : HashMap Str Str) :
    (readSection order' modules value' customHeaders').fcgiScriptExtensions =
      (readSection order modules value customHeaders).fcgiScriptExtensions := by
  rw [fcgiScriptExtensions_readSection h.uniqueKeys.1, fcgiScriptExtensions_readSection h.uniqueKeys.2,
    Yaml.sections, Yaml.sections, h.index_eq (by decide)]

/-- Two sections with the same settings are the same when the nodes of their properties and their headers
are. -/
theorem sameDocument_section_iff {value value' : Yaml} (h : Reordered value value')
    (customHeaders customHeaders' : HashMap Str Str) :
    SameDocument (sectionDocuments order modules value customHeaders).1
        (sectionDocuments order' modules value' customHeaders').1 ↔
      SameDocument (readSection order modules value customHeaders).nodes
          (readSection order' modules value' customHeaders').nodes ∧
        ∀ name, inForce value (fun name => customHeaders.lookup name) name =
          inForce value' (fun name => customHeaders'.lookup name) name := by
  obtain ⟨hunique, hunique'⟩ := h.uniqueKeys
  rw [sectionDocuments_fst, sectionDocuments_fst, finish_nodes, finish_nodes,
    @settings_reordered order order' modules _ _ h customHeaders customHeaders',
    @extensions_reordered order order' modules _ _ h customHeaders customHeaders',
    SameDocument, sameByKey_within_iff (fun node _ => SameNode.refl node) (fun node _ => SameNode.refl node),
    sameByKey_append_iff]
  · refine and_congr ?_ ?_
    · have hwithin := @sameByKey_within_iff _ _ _ nodeKey SameNode
        (readSection order modules value customHeaders).nodes
        (readSection order' modules value' customHeaders').nodes []
        (scgiHandler modules (readSection order modules value customHeaders).settings).directives
        (fun node _ => SameNode.refl node) (fun node _ => SameNode.refl node)
      exact hwithin
    · rw [customHeaders_readSection hunique, customHeaders_readSection hunique']
      refine sameDocument_headerNodes_iff.trans (forall_congr' fun name => ?_)
      rw [lookup_insertHeaders, lookup_insertHeaders]
  · intro key
    by_cases hkey : key.1 = "header".toList
    · have hname : ∀ node : KdlNode, nodeKey node = key → node.name = "header".toList :=
        fun node hnode => (congrArg Prod.fst hnode).trans hkey
      refine .inl ⟨ofKey_eq_nil fun node hmem hnode => ?_, ofKey_eq_nil fun node hmem hnode => ?_⟩
      · exact ne_header_of_mem hmem (hname node hnode)
      · exact ne_header_of_mem hmem (hname node hnode)
    · have hname : ∀ {order : HeaderOrder} {customHeaders : HashMap Str Str},
          ofKey nodeKey key (headerNodes order customHeaders) = [] := by
        refine ofKey_eq_nil fun node hmem hnode => hkey ?_
        obtain ⟨name, value, rfl⟩ := name_of_mem_headerNodes hmem
        exact (congrArg Prod.fst hnode).symm
      exact .inr ⟨hname, hname⟩

/-- A section that is reordered stays the same exactly when its headers and those of the sections in it do. -/
theorem sameDocument_iff_headersAlike (value : Yaml) : ∀ {value' : Yaml}, Reordered value value' →
    ∀ customHeaders customHeaders' : HashMap Str Str,
      (SameDocument (sectionDocuments order modules value customHeaders).1
          (sectionDocuments order' modules value' customHeaders').1 ↔
        HeadersAlike value value' (fun name => customHeaders.lookup name)
          fun name => customHeaders'.lookup name) := by
  induction value using Yaml.sectionRec with
  | step value ih =>
      intro value' h customHeaders customHeaders'
      have hsection : ∀ key ∈ sectionKeys, ∀ pair ∈ (value.sections key).zip (value'.sections key),
          (SameDocument (sectionDocuments order modules pair.1 (headersFor value key customHeaders)).1
              (sectionDocuments order' modules pair.2 (headersFor value' key customHeaders')).1 ↔
            HeadersAlike pair.1 pair.2 (handedOn value key fun name => customHeaders.lookup name)
              (handedOn value' key fun name => customHeaders'.lookup name)) := by
        intro key hkey pair hpair
        obtain ⟨items, hentry, hitem⟩ := Yaml.mem_of_mem_sections (List.of_mem_zip hpair).1
        have hreordered := List.forall₂_zip (h.sections hkey) hpair
        rw [← lookup_headersFor, ← lookup_headersFor]
        exact ih _ items hentry _ hitem hreordered _ _
      rw [sameDocument_section_iff h, sameDocument_nodes_iff h,
        sameDocument_locations_iff (h.sections List.mem_cons_self),
        sameDocument_errorConfigs_iff (h.sections (List.mem_cons_of_mem _ List.mem_cons_self)),
        headersAlike_iff, and_comm]
      refine and_congr_right fun _ => and_congr ?_ ?_
      · refine forall₂_congr fun pair hpair => imp_congr_right fun _ => ?_
        exact hsection "locations" List.mem_cons_self pair hpair
      · refine forall₂_congr fun pair hpair => ?_
        exact hsection "errorConfig" (List.mem_cons_of_mem _ List.mem_cons_self) pair hpair

theorem nodes_eq_nil_iff {value value' : Yaml} (h : Reordered value value')
    (customHeaders customHeaders' : HashMap Str Str) :
    (readSection order modules value customHeaders).nodes = [] ↔
      (readSection order' modules value' customHeaders').nodes = [] := by
  obtain ⟨hunique, hunique'⟩ := h.uniqueKeys
  have hlength : ∀ name, (named name (readSection order modules value customHeaders).nodes).length =
      (named name (readSection order' modules value' customHeaders').nodes).length := by
    intro name
    by_cases hlocation : name = "location".toList
    · rw [hlocation, named_locations hunique, named_locations hunique']
      exact length_flatMap_eq (length_locationNodes _ _ (h.sections List.mem_cons_self))
    · by_cases herror : name = "error_config".toList
      · rw [herror, named_errorConfigs hunique, named_errorConfigs hunique']
        exact length_flatMap_eq
          (length_errorConfigNodes _ _ (h.sections (List.mem_cons_of_mem _ List.mem_cons_self)))
      · rw [@named_reordered order order' modules _ _ h customHeaders customHeaders' _ hlocation herror]
  have hsame : SameByKey KdlNode.name (fun _ _ => True) (readSection order modules value customHeaders).nodes
      (readSection order' modules value' customHeaders').nodes :=
    fun name => List.forall₂_iff_zip.2 ⟨hlength name, fun _ => trivial⟩
  exact hsame.nil_iff

/-- A section that is reordered has nodes as before, if its headers stay the same. -/
theorem document_eq_nil_iff {value value' : Yaml} (h : Reordered value value')
    {customHeaders customHeaders' : HashMap Str Str}
    (hheaders : ∀ name, inForce value (fun name => customHeaders.lookup name) name =
      inForce value' (fun name => customHeaders'.lookup name) name) :
    (sectionDocuments order modules value customHeaders).1 = [] ↔
      (sectionDocuments order' modules value' customHeaders').1 = [] := by
  have hsame : SameDocument
      (headerNodes order (readSection order modules value customHeaders).customHeaders)
      (headerNodes order' (readSection order' modules value' customHeaders').customHeaders) := by
    rw [sameDocument_headerNodes_iff]
    intro name
    rw [customHeaders_readSection h.uniqueKeys.1, customHeaders_readSection h.uniqueKeys.2,
      lookup_insertHeaders, lookup_insertHeaders]
    exact hheaders name
  rw [sectionDocuments_fst, sectionDocuments_fst, finish_nodes, finish_nodes,
    @settings_reordered order order' modules _ _ h customHeaders customHeaders',
    @extensions_reordered order order' modules _ _ h customHeaders customHeaders']
  simp only [List.append_eq_nil_iff]
  rw [hsame.nil_iff, @nodes_eq_nil_iff order order' modules _ _ h customHeaders customHeaders']

end Sections

end Ferron.Yaml2Kdl
