import Mathlib.Data.Option.Defs
import Patchwork.Proofs.Merge.Accounting
import Patchwork.Proofs.Merge.LastWriter

/-!
# The load order matters for conflicts alone

Two mods that follow one another in the load order conflict if both create a record, both
name it, or both write one field or one link of it.  Where they do not conflict, they can
be swapped: the merged records are the same, and so are the mods they are from and the
identifiers that nothing creates.
-/

namespace Patchwork

/-! ## What is written last -/

section

variable {Item Value State : Type} {read : Item → Option Value}

/-- Of two outcomes that do not contradict one another the order does not matter. -/
theorem or_swap {left right : Option Value}
    (hagree : ∀ first ∈ left, ∀ second ∈ right, first = second) (rest : Option Value) :
    left.or (right.or rest) = right.or (left.or rest) := by
  cases left with
  | none => rfl
  | some first =>
    cases right with
    | none => rfl
    | some second => exact congrArg some (hagree first rfl second rfl)

theorem lastSome?_append (front back : List Item) :
    lastSome? read (front ++ back) = (lastSome? read back).or (lastSome? read front) := by
  rw [lastSome?, List.reverse_append, List.findSome?_append, lastSome?, lastSome?]

theorem exists_of_lastSome? {items : List Item} {value : Value}
    (hlast : lastSome? read items = some value) : ∃ item ∈ items, read item = some value := by
  obtain ⟨item, hmem, hread⟩ := List.exists_of_findSome?_eq_some hlast
  exact ⟨item, List.mem_reverse.mp hmem, hread⟩

/-- Two blocks that do not contradict one another can be swapped. -/
theorem lastSome?_swap {first second : List Item}
    (hagree : ∀ left ∈ first, ∀ right ∈ second, ∀ given ∈ read left, ∀ other ∈ read right,
      given = other) (front back : List Item) :
    lastSome? read (front ++ (first ++ (second ++ back))) =
      lastSome? read (front ++ (second ++ (first ++ back))) := by
  have hone : ∀ given ∈ lastSome? read first, ∀ other ∈ lastSome? read second,
      given = other := by
    intro given hgiven other hother
    obtain ⟨left, hleft, hreads⟩ := exists_of_lastSome? hgiven
    obtain ⟨right, hright, hothers⟩ := exists_of_lastSome? hother
    exact hagree left hleft right hright given hreads other hothers
  simp only [lastSome?_append, Option.or_assoc]
  rw [or_swap hone]

/-- After some writes, the last one that says something is what counts. -/
theorem read_foldl (read : State → Option Value) {write : State → Item → State}
    {written : Item → Option Value}
    (hread : ∀ state item, read (write state item) = (written item).or (read state))
    (state : State) (items : List Item) :
    read (items.foldl write state) = (lastSome? written items).or (read state) := by
  induction items generalizing state with
  | nil => rfl
  | cons item rest ih => rw [List.foldl_cons, ih, hread, lastSome?_cons, Option.or_assoc]

end

namespace Record

/-! ## What a version writes -/

/-- The value that a version writes to a field. -/
def writtenField? (key : Plain) (version : Record) : Option Plain :=
  lastSome? (fun entry => if entry.1 == key then some entry.2 else none) version.fields

/-- The payload that a version gives to a link. -/
def writtenLink? (category target : String) (version : Record) : Option (List Int) :=
  lastSome? (fun link : Link =>
    if link.category = category ∧ link.target = target then some link.payload else none)
    (version.linkList none)

/-- Whether a version makes sure that there is a category of links. -/
def writtenCategory? (category : String) (version : Record) : Option Unit :=
  lastSome? (fun link : Link => if link.category = category then some () else none)
    (version.linkList none)

/-- Whether a record has a category of links. -/
def category? (category : String) (record : Record) : Option Unit :=
  (record.links.get? category).map fun _ => ()

theorem get?_fields_applyChanges_written {key : Plain} (hkey : key.IsKey)
    (record version : Record) :
    (record.applyChanges version).fields.get? key =
      (version.writtenField? key).or (record.fields.get? key) := by
  refine read_foldl (fun fields : Entries Plain Plain => fields.get? key)
    (fun fields entry => ?_) record.fields version.fields
  rw [Entries.get?_put_of_sharp hkey.sharp]
  split <;> rfl

theorem payload?_applyChanges_written (category target : String) (record version : Record) :
    (record.applyChanges version).payload? category target =
      (version.writtenLink? category target).or (record.payload? category target) := by
  refine read_foldl (fun links => payloadIn links category target)
    (fun links link => ?_) record.links (version.linkList none)
  rw [payloadIn_putLink]
  split <;> rfl

theorem category?_applyChanges (category : String) (record version : Record) :
    (record.applyChanges version).category? category =
      (version.writtenCategory? category).or (record.category? category) := by
  refine read_foldl (fun links : Links => (links.get? category).map fun _ => ())
    (fun links link => ?_) record.links (version.linkList none)
  rw [putLink, Entries.get?_put]
  by_cases hcategory : link.category = category <;> simp [hcategory]

theorem has_of_writtenField? {version : Record} {key value : Plain}
    (hwritten : version.writtenField? key = some value) : version.fields.has key = true := by
  obtain ⟨entry, hentry, hgiven⟩ := exists_of_lastSome? hwritten
  rw [Entries.has_eq_any_keys, List.any_map, List.any_eq_true]
  refine ⟨entry, hentry, ?_⟩
  split at hgiven
  · assumption
  · cases hgiven

theorem mem_linkList {record : Record} {category : Option String} {link : Link} :
    link ∈ record.linkList category ↔
      category.all (· == link.category) = true ∧ ∃ targets,
        (link.category, targets) ∈ record.links ∧ (link.target, link.payload) ∈ targets := by
  obtain ⟨here, target, payload⟩ := link
  simp only [linkList, List.mem_flatMap]
  constructor
  · rintro ⟨⟨other, targets⟩, hmem, hlink⟩
    split at hlink
    · rename_i hcategory
      obtain ⟨⟨_, _⟩, hentry, hsame⟩ := List.mem_map.mp hlink
      cases hsame
      exact ⟨hcategory, targets, hmem, hentry⟩
    · cases hlink
  · rintro ⟨hcategory, targets, hmem, hentry⟩
    refine ⟨(here, targets), hmem, ?_⟩
    rw [if_pos hcategory]
    exact List.mem_map_of_mem hentry

theorem hasLink_of_writtenLink? {version : Record} {category target : String}
    {payload : List Int} (hwritten : version.writtenLink? category target = some payload) :
    version.hasLink target (some category) none = true := by
  obtain ⟨link, hlink, hgiven⟩ := exists_of_lastSome? hwritten
  split at hgiven
  · rename_i hsame
    have hcategory : link ∈ version.linkList (some category) :=
      mem_linkList.mpr ⟨by simp [hsame.1], (mem_linkList.mp hlink).2⟩
    rw [hasLink, List.any_eq_true]
    exact ⟨link, hcategory, by simp [hsame.2]⟩
  · cases hgiven

end Record

/-- Two versions that write different things: not both create their record, not both name
it, and there is no field and no link that both have. -/
structure Record.Compatible (left right : Record) : Prop where
  creators : ¬ (left.isNew = true ∧ right.isNew = true)
  names : left.name = "" ∨ right.name = ""
  fields : ∀ key : Plain, key.IsKey →
    ¬ (left.fields.has key = true ∧ right.fields.has key = true)
  links : ∀ category target, ¬ (left.hasLink target (some category) none = true ∧
    right.hasLink target (some category) none = true)

namespace Record.Compatible

variable {left right : Record}

theorem names_agree (hcompatible : left.Compatible right) :
    ∀ given ∈ left.givenName?, ∀ other ∈ right.givenName?, given = other := by
  intro given hgiven other hother
  rcases hcompatible.names with hempty | hempty
  · simp [givenName?, hempty] at hgiven
  · simp [givenName?, hempty] at hother

theorem fields_agree (hcompatible : left.Compatible right) {key : Plain} (hkey : key.IsKey) :
    ∀ given ∈ left.writtenField? key, ∀ other ∈ right.writtenField? key, given = other :=
  fun _ hgiven _ hother => absurd
    ⟨has_of_writtenField? hgiven, has_of_writtenField? hother⟩ (hcompatible.fields key hkey)

theorem links_agree (hcompatible : left.Compatible right) (category target : String) :
    ∀ given ∈ left.writtenLink? category target, ∀ other ∈ right.writtenLink? category target,
      given = other :=
  fun _ hgiven _ hother => absurd
    ⟨hasLink_of_writtenLink? hgiven, hasLink_of_writtenLink? hother⟩
    (hcompatible.links category target)

end Record.Compatible

namespace Merge

variable {pool : Pool}

/-! ## Versions of one identifier -/

/-- What versions write to a merged record, each after those in front of it. -/
theorem read_mergeVersions_written {Value : Type} (read : Record → Option Value)
    {written : Record → Option Value}
    (hread : ∀ record version : Record,
      read (record.applyChanges version) = (written version).or (read record))
    (creator : Member) (versions : List Member) :
    read (mergeVersions pool creator versions) =
      (lastSome? (fun version : Member => written (pool.get version.record))
        (versions.filter fun version => version.record ≠ creator.record)).or
        (read (pool.get creator.record)) :=
  read_foldl read (fun merged version => hread merged (pool.get version.record))
    (pool.get creator.record) _

section

variable {first second : List Member}

theorem read_mergeVersions_swap {Value : Type} (read : Record → Option Value)
    {written : Record → Option Value}
    (hread : ∀ record version : Record,
      read (record.applyChanges version) = (written version).or (read record))
    (hagree : ∀ left ∈ first, ∀ right ∈ second, ∀ given ∈ written (pool.get left.record),
      ∀ other ∈ written (pool.get right.record), given = other)
    (creator : Member) (front back : List Member) :
    read (mergeVersions pool creator (front ++ (first ++ (second ++ back)))) =
      read (mergeVersions pool creator (front ++ (second ++ (first ++ back)))) := by
  rw [read_mergeVersions_written read hread, read_mergeVersions_written read hread]
  simp only [List.filter_append]
  rw [lastSome?_swap fun left hleft right hright =>
    hagree left (List.mem_filter.mp hleft).1 right (List.mem_filter.mp hright).1]

theorem isNew_of_creator? {versions : List Member} {creator : Member}
    (hcreator : creator? pool versions = some creator) :
    (pool.get creator.record).isNew = true := by
  rw [creator?] at hcreator
  simpa using List.find?_some hcreator

/-- The same creator and the same content; only the order in which the content is listed
may differ. -/
structure SameEntry (left right : String × Record) : Prop where
  provenance : left.1 = right.1
  id : left.2.id = right.2.id
  kind : left.2.kind = right.2.kind
  mod : left.2.mod = right.2.mod
  isNew : left.2.isNew = right.2.isNew
  alike : left.2.Alike right.2
  categories : ∀ category, left.2.links.has category = right.2.links.has category

variable (hcompatible : ∀ left ∈ first, ∀ right ∈ second,
  (pool.get left.record).Compatible (pool.get right.record))

include hcompatible

theorem creator?_swap (front back : List Member) :
    creator? pool (front ++ (first ++ (second ++ back))) =
      creator? pool (front ++ (second ++ (first ++ back))) := by
  -- If both blocks had a creator, these two would conflict.
  have hone : ∀ left ∈ creator? pool first, ∀ right ∈ creator? pool second, left = right := by
    intro left hleft right hright
    have hcreators := (hcompatible left (creator?_mem hleft) right (creator?_mem hright)).creators
    exact absurd ⟨isNew_of_creator? hleft, isNew_of_creator? hright⟩ hcreators
  simp only [creator?, List.find?_append] at hone ⊢
  rw [or_swap hone]

theorem sameEntry_swap (creator : Member) (front back : List Member) :
    SameEntry (creator.mod, mergeVersions pool creator (front ++ (first ++ (second ++ back))))
      (creator.mod, mergeVersions pool creator (front ++ (second ++ (first ++ back)))) := by
  have hkeeps : ∀ {Value : Type} (read : Record → Value),
      (∀ record version : Record, read (record.applyChanges version) = read record) →
      read (mergeVersions pool creator (front ++ (first ++ (second ++ back)))) =
        read (mergeVersions pool creator (front ++ (second ++ (first ++ back)))) :=
    fun read hread => (keeps_mergeVersions read hread pool creator _).trans
      (keeps_mergeVersions read hread pool creator _).symm
  refine ⟨rfl, hkeeps Record.id Record.id_applyChanges,
    hkeeps Record.kind Record.kind_applyChanges, hkeeps Record.mod fun _ _ => rfl,
    hkeeps Record.isNew Record.isNew_applyChanges, ⟨?name, ?fields, ?links⟩, ?categories⟩
  case name =>
    rw [← Record.givenName?_getD, ← Record.givenName?_getD]
    refine congrArg (Option.getD · "") (read_mergeVersions_swap Record.givenName?
      Record.givenName?_applyChanges (fun left hleft right hright => ?_) creator front back)
    exact (hcompatible left hleft right hright).names_agree
  case fields =>
    intro key hkey
    refine read_mergeVersions_swap (fun record => record.fields.get? key)
      (Record.get?_fields_applyChanges_written hkey) (fun left hleft right hright => ?_)
      creator front back
    exact (hcompatible left hleft right hright).fields_agree hkey
  case links =>
    intro category target
    refine read_mergeVersions_swap (fun record => record.payload? category target)
      (Record.payload?_applyChanges_written category target) (fun left hleft right hright => ?_)
      creator front back
    exact (hcompatible left hleft right hright).links_agree category target
  case categories =>
    intro category
    -- Both may write to one category, but they cannot say different things of it.
    have hmark : (mergeVersions pool creator
          (front ++ (first ++ (second ++ back)))).category? category =
        (mergeVersions pool creator (front ++ (second ++ (first ++ back)))).category? category :=
      read_mergeVersions_swap _ (Record.category?_applyChanges category)
        (fun _ _ _ _ _ _ _ _ => rfl) creator front back
    have hsame := congrArg Option.isSome hmark
    rwa [Record.category?, Record.category?, Option.isSome_map, Option.isSome_map] at hsame

theorem mergedVersion?_swap (front back : List Member) :
    Option.Rel SameEntry (mergedVersion? pool (front ++ (first ++ (second ++ back))))
      (mergedVersion? pool (front ++ (second ++ (first ++ back)))) := by
  rw [mergedVersion?, mergedVersion?, creator?_swap hcompatible]
  cases creator? pool (front ++ (second ++ (first ++ back))) with
  | none => exact .none
  | some creator => exact .some (sameEntry_swap hcompatible creator front back)

end

/-! ## All identifiers -/

section

variable {members others : List Member}

theorem identities_perm (hperm : members.Perm others) :
    (identities pool members).Perm (identities pool others) := by
  refine (List.perm_ext_iff_of_nodup (nodup_identities _ _) (nodup_identities _ _)).mpr ?_
  intro id
  simp only [mem_identities, hperm.mem_iff]

theorem any_versionsOf_perm (hperm : members.Perm others) (test : Member → Bool) (id : String) :
    (versionsOf pool members id).any test = (versionsOf pool others id).any test :=
  (hperm.filter _).any_eq

/-- What is merged and what is not depends on the versions there are and not on their
order. -/
theorem ids_merged_perm (hperm : members.Perm others) :
    ((mergeAll pool members).merged.map fun entry => entry.2.id).Perm
      ((mergeAll pool others).merged.map fun entry => entry.2.id) := by
  rw [ids_merged_mergeAll, ids_merged_mergeAll]
  simp only [any_versionsOf_perm hperm]
  exact (identities_perm hperm).filter _

theorem orphans_perm (hperm : members.Perm others) :
    (mergeAll pool members).orphans.Perm (mergeAll pool others).orphans := by
  rw [orphans_mergeAll, orphans_mergeAll]
  simp only [any_versionsOf_perm hperm]
  exact (identities_perm hperm).filter _

end

/-- The same identifiers are merged and the same ones are orphans, and what is merged is
the same for each of them. -/
structure Outcome.Agrees (left right : Outcome) : Prop where
  ids : (left.merged.map fun entry => entry.2.id).Perm (right.merged.map fun entry => entry.2.id)
  orphans : left.orphans.Perm right.orphans
  entries : ∀ entry ∈ left.merged, ∀ other ∈ right.merged, entry.2.id = other.2.id →
    SameEntry entry other

theorem mergedVersion?_of_mem {members : List Member} {entry : String × Record}
    (hentry : entry ∈ (mergeAll pool members).merged) :
    mergedVersion? pool (versionsOf pool members entry.2.id) = some entry := by
  rw [merged_mergeAll] at hentry
  obtain ⟨id, -, hversion⟩ := List.mem_filterMap.mp hentry
  rw [id_of_mergedVersion? hversion]
  exact hversion

/-- Two blocks that are compatible wherever they have one identifier can be swapped. -/
theorem mergeAll_swap {first second : List Member}
    (hcompatible : ∀ left ∈ first, ∀ right ∈ second,
      identity pool left = identity pool right →
        (pool.get left.record).Compatible (pool.get right.record)) (front back : List Member) :
    (mergeAll pool (front ++ (first ++ (second ++ back)))).Agrees
      (mergeAll pool (front ++ (second ++ (first ++ back)))) := by
  have hperm : (front ++ (first ++ (second ++ back))).Perm (front ++ (second ++ (first ++ back))) :=
    (List.perm_append_comm_assoc first second back).append_left front
  refine ⟨ids_merged_perm hperm, orphans_perm hperm, fun entry hentry other hother hid => ?_⟩
  have hversion := mergedVersion?_of_mem hentry
  have hversions := mergedVersion?_of_mem hother
  simp only [versionsOf_append, ← hid] at hversion hversions
  have hblocks : ∀ left ∈ versionsOf pool first entry.2.id,
      ∀ right ∈ versionsOf pool second entry.2.id,
        (pool.get left.record).Compatible (pool.get right.record) := by
    intro left hleft right hright
    obtain ⟨hmem, hidentity⟩ := mem_versionsOf.mp hleft
    obtain ⟨hmems, hidentities⟩ := mem_versionsOf.mp hright
    exact hcompatible left hmem right hmems (hidentity.trans hidentities.symm)
  have hrel := mergedVersion?_swap hblocks (versionsOf pool front entry.2.id)
    (versionsOf pool back entry.2.id)
  rw [hversion, hversions] at hrel
  cases hrel with
  | some hsame => exact hsame

end Merge

/-! ## Mods of a repository -/

/-- Two mods that do not conflict: their records of a kind write different things wherever
they have one identifier. -/
def Mod.Compatible (pool : Pool) (kind : String) (left right : Mod) : Prop :=
  ∀ ref ∈ left.ofKind pool kind, ∀ other ∈ right.ofKind pool kind,
    (pool.get ref).id = (pool.get other).id → (pool.get ref).Compatible (pool.get other)

namespace Repository

/-- What the records of a kind from the selected mods are merged into. -/
def outcome (repository : Repository) (pool : Pool) (selector kind : String) : Merge.Outcome :=
  Merge.mergeAll pool (collect pool kind (repository.select selector).1)

theorem exists_select (selector : String) :
    ∃ selects : String × Mod → Bool, ∀ repository : Repository,
      (repository.select selector).1 = (repository.mods.filter selects).map Prod.snd := by
  by_cases hall : Text.trim selector == "all"
  · refine ⟨fun _ => true, fun repository => ?_⟩
    rw [select, if_pos hall, List.filter_true]
    rfl
  · refine ⟨fun entry => (selectedNames selector).contains entry.1, fun repository => ?_⟩
    rw [select, if_neg hall]

theorem collect_append (pool : Pool) (kind : String) (front back : List Mod) :
    collect pool kind (front ++ back) = collect pool kind front ++ collect pool kind back :=
  List.flatMap_append

theorem exists_of_mem_collect {pool : Pool} {kind : String} {mods : List Mod} {member : Member}
    (hmember : member ∈ collect pool kind mods) :
    ∃ mod ∈ mods, member.record ∈ mod.ofKind pool kind := by
  obtain ⟨mod, hmod, hcollected⟩ := List.mem_flatMap.mp hmember
  obtain ⟨ref, href, rfl⟩ := List.mem_map.mp hcollected
  exact ⟨mod, hmod, href⟩

/-- Mods that follow one another in the load order and do not conflict can be swapped: any
query for the kind merges the same records from the same mods, and leaves the same
identifiers without one.  Only the order in which these are listed may differ. -/
theorem outcome_swap {pool : Pool} {kind : String} {left right : String × Mod}
    (hcompatible : left.2.Compatible pool kind right.2) (front back : Entries String Mod)
    (selector : String) :
    (Repository.outcome ⟨front ++ left :: right :: back⟩ pool selector kind).Agrees
      (Repository.outcome ⟨front ++ right :: left :: back⟩ pool selector kind) := by
  obtain ⟨selects, hselect⟩ := exists_select selector
  have hcollect : ∀ first second : String × Mod,
      collect pool kind (((front ++ first :: second :: back).filter selects).map Prod.snd) =
        collect pool kind ((front.filter selects).map Prod.snd) ++
        (collect pool kind (([first].filter selects).map Prod.snd) ++
        (collect pool kind (([second].filter selects).map Prod.snd) ++
          collect pool kind ((back.filter selects).map Prod.snd))) := by
    intro first second
    simp only [← collect_append, ← List.map_append, ← List.filter_append, List.singleton_append]
  rw [outcome, outcome, hselect, hselect, hcollect, hcollect]
  have hone : ∀ {entry : String × Mod} {member : Member},
      member ∈ collect pool kind (([entry].filter selects).map Prod.snd) →
        member.record ∈ entry.2.ofKind pool kind := by
    intro entry member hmember
    obtain ⟨mod, hmod, href⟩ := exists_of_mem_collect hmember
    obtain ⟨selected, hselected, rfl⟩ := List.mem_map.mp hmod
    rwa [List.mem_singleton.mp (List.mem_filter.mp hselected).1] at href
  exact Merge.mergeAll_swap (fun member hmember other hother hid =>
    hcompatible _ (hone hmember) _ (hone hother) hid) _ _

/-- A sword, a version that names it and makes it sharper, and one that makes it heavier
and links it to another record. -/
def anvilPool : Pool where
  records := #[
    { id := "1", kind := "WEAPON", isNew := true, fields := [(.str "damage", .int 1)] },
    { id := "1", kind := "WEAPON", name := "Sword", fields := [(.str "damage", .int 5)] },
    { id := "1", kind := "WEAPON", fields := [(.str "weight", .int 2)],
      links := [("part", [("8", [4])])] }]

/-- A mod with one of these records, under its name. -/
def anvilMod (name : String) (index : Nat) : String × Mod :=
  (name, { name := name, records := [⟨index⟩] })

theorem compatible_anvilMods :
    (anvilMod "sharper" 1).2.Compatible anvilPool "WEAPON" (anvilMod "heavier" 2).2 := by
  intro ref href other hother _
  obtain rfl : ref = ⟨1⟩ := List.mem_singleton.mp (List.mem_filter.mp href).1
  obtain rfl : other = ⟨2⟩ := List.mem_singleton.mp (List.mem_filter.mp hother).1
  refine ⟨by decide, by decide, ?_, ?_⟩
  · rintro key - ⟨hdamage, hweight⟩
    rw [Entries.has_eq_any_keys] at hdamage hweight
    have hsharper : key = .str "damage" :=
      Plain.str_beq_iff.mp (by simpa [anvilPool, Pool.get] using hdamage)
    have hheavier : key = .str "weight" :=
      Plain.str_beq_iff.mp (by simpa [anvilPool, Pool.get] using hweight)
    exact absurd (hsharper.symm.trans hheavier) (by simp)
  · rintro category target ⟨hlink, -⟩
    cases hlink

theorem anvil_outcome_swap :
    let sword := anvilMod "base" 0
    let sharper := anvilMod "sharper" 1
    let heavier := anvilMod "heavier" 2
    sharper.2.Compatible anvilPool "WEAPON" heavier.2 ∧
      ((outcome ⟨[sword, sharper, heavier]⟩ anvilPool "all" "WEAPON").merged.map
        fun entry => (entry.1, entry.2.name, entry.2.fields.length)) = [("base", "Sword", 2)] ∧
      (outcome ⟨[sword, sharper, heavier]⟩ anvilPool "all" "WEAPON").Agrees
        (outcome ⟨[sword, heavier, sharper]⟩ anvilPool "all" "WEAPON") :=
  ⟨compatible_anvilMods, rfl, outcome_swap compatible_anvilMods [_] [] "all"⟩

end Repository

end Patchwork
