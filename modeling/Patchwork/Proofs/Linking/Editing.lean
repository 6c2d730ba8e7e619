import Patchwork.Proofs.Mod.Amendments
import Patchwork.Proofs.Record.Content

/-!
# Editing the links of a category

In a record whose maps are maps the links of a category are the entries of one map of targets.
Writing some of these links again changes their payloads where they stand: the categories, the
targets and their order stay as they are.

The payloads of the links that are accepted are rewritten position by position, on the record
and on the version that the mod being patched has of it.  Which links are accepted and what their
payloads become is settled by the links as they were, although the links are written one by one.
-/

namespace Patchwork

open Eval

/-! ## The links of one category -/

namespace Entries

variable {Key Value : Type} [BEq Key]

/-- An entry is written where its key stands. -/
theorem put_append_cons [ReflBEq Key] {front back : Entries Key Value} {key : Key}
    (hfront : ∀ entry ∈ front, (entry.1 == key) = false) (old value : Value) :
    put (front ++ (key, old) :: back) key value = front ++ (key, value) :: back := by
  induction front with
  | nil => simp [put]
  | cons head rest ih =>
    obtain ⟨here, other⟩ := head
    have hhere : (here == key) = false := hfront (here, other) List.mem_cons_self
    simp [put, hhere, ih fun entry hentry => hfront entry (List.mem_cons_of_mem _ hentry)]

theorem get?_append_cons [ReflBEq Key] {front back : Entries Key Value} {key : Key}
    (hfront : ∀ entry ∈ front, (entry.1 == key) = false) (value : Value) :
    get? (front ++ (key, value) :: back) key = some value := by
  induction front with
  | nil => simp [get?]
  | cons head rest ih =>
    obtain ⟨here, other⟩ := head
    have hhere : (here == key) = false := hfront (here, other) List.mem_cons_self
    simp [get?, hhere, ih fun entry hentry => hfront entry (List.mem_cons_of_mem _ hentry)]

/-- Some entries written again, one after the other, are changed where they stand. -/
theorem foldl_put_map [LawfulBEq Key] {entries : Entries Key Value}
    (hdistinct : entries.Distinct) (chosen : Value → Bool) (change : Value → Value) :
    ((entries.filter fun entry => chosen entry.2).map fun entry => (entry.1, change entry.2)).foldl
        (fun written entry => put written entry.1 entry.2) entries =
      entries.map fun entry =>
        (entry.1, if chosen entry.2 then change entry.2 else entry.2) := by
  -- The entries in front have been dealt with; their keys are none of those that follow.
  have hfrom : ∀ (front : Entries Key Value) {behind : Entries Key Value}, behind.Distinct →
      (∀ entry ∈ front, ∀ other ∈ behind, (entry.1 == other.1) = false) →
      ((behind.filter fun entry => chosen entry.2).map fun entry => (entry.1, change entry.2)).foldl
          (fun written entry => put written entry.1 entry.2) (front ++ behind) =
        front ++ behind.map fun entry =>
          (entry.1, if chosen entry.2 then change entry.2 else entry.2) := by
    intro front behind hbehind hapart
    induction behind generalizing front with
    | nil => simp
    | cons head rest ih =>
      obtain ⟨key, value⟩ := head
      obtain ⟨hhead, hrest⟩ := List.pairwise_cons.mp hbehind
      have hkey : ∀ entry ∈ front, (entry.1 == key) = false := fun entry hentry =>
        hapart entry hentry (key, value) List.mem_cons_self
      have hnext : ∀ now, ∀ entry ∈ front ++ [(key, now)], ∀ other ∈ rest,
          (entry.1 == other.1) = false := by
        intro now entry hentry other hother
        rcases List.mem_append.mp hentry with hfront | hlast
        · exact hapart entry hfront other (List.mem_cons_of_mem _ hother)
        · rw [List.mem_singleton.mp hlast]
          exact hhead other hother
      by_cases hchosen : chosen value = true
      · have hstep := ih (front ++ [(key, change value)]) hrest (hnext _)
        simp only [List.append_assoc, List.singleton_append] at hstep
        simp [hchosen, put_append_cons hkey, hstep]
      · have hstep := ih (front ++ [(key, value)]) hrest (hnext _)
        simp only [List.append_assoc, List.singleton_append] at hstep
        simp [hchosen, hstep]
  simpa using hfrom [] hdistinct (by simp)

/-- Looking up among the entries that are chosen, with their values changed. -/
theorem get?_filter_map [LawfulBEq Key] {entries : Entries Key Value}
    (hdistinct : entries.Distinct) (chosen : Value → Bool) (change : Value → Value) (key : Key) :
    get? ((entries.filter fun entry => chosen entry.2).map fun entry => (entry.1, change entry.2))
        key = ((get? entries key).filter chosen).map change := by
  induction entries with
  | nil => rfl
  | cons head rest ih =>
    obtain ⟨here, value⟩ := head
    have hbehind := ih hdistinct.tail
    by_cases hhere : here = key
    · have hnone := get?_eq_none_of_distinct (sharp_of_lawful key) hdistinct
        (beq_iff_eq.mpr hhere)
      rw [hnone] at hbehind
      by_cases hchosen : chosen value = true <;>
        simp [get?, hhere, hchosen, hbehind, Option.filter]
    · by_cases hchosen : chosen value = true <;>
        simp [get?, hhere, hchosen, hbehind, Option.filter]

end Entries

namespace Record

variable {record : Record}

/-- The links of a category of a record whose maps are maps. -/
theorem linkList_eq_map (hlinks : record.links.Distinct) (category : String) :
    record.linkList (some category) =
      ((record.links.get? category).getD []).map fun entry => ⟨category, entry.1, entry.2⟩ := by
  unfold linkList
  generalize record.links = links at hlinks
  induction links with
  | nil => rfl
  | cons head rest ih =>
    obtain ⟨here, targets⟩ := head
    have hbehind := ih hlinks.tail
    rw [List.flatMap_cons, hbehind]
    by_cases hhere : here = category
    · have hnone := Entries.get?_eq_none_of_distinct (Entries.sharp_of_lawful category) hlinks
        (beq_iff_eq.mpr hhere)
      simp [Entries.get?, hhere, hnone]
    · simp [Entries.get?, hhere, Ne.symm hhere]

/-- Whether a record whose maps are maps has a link of a category to a target. -/
theorem hasLink_eq_isSome (htidy : record.Tidy) (category target : String) :
    record.hasLink target (some category) none = (record.payload? category target).isSome := by
  rw [hasLink, linkList_eq_map htidy.links, payload?_eq, payloadIn, List.any_map]
  cases record.links.get? category with
  | none => rfl
  | some targets =>
    have hhas := Entries.has_eq_any_keys targets target
    rw [List.any_map] at hhas
    rw [Option.bind_some, ← Entries.has, hhas, Option.getD_some]
    congr 1
    funext entry
    simp

variable {links : Links} {category : String}

/-- Links of one category are written into the map of its targets. -/
theorem foldl_putLink_append_cons {front back : Links}
    (hfront : ∀ entry ∈ front, (entry.1 == category) = false)
    (targets written : Entries String (List Int)) :
    (written.map fun entry => Link.mk category entry.1 entry.2).foldl putLink
        (front ++ (category, targets) :: back) =
      front ++ (category, written.foldl (fun targets entry => targets.put entry.1 entry.2) targets)
        :: back := by
  induction written generalizing targets with
  | nil => rfl
  | cons entry rest ih =>
    rw [List.map_cons, List.foldl_cons, List.foldl_cons, putLink,
      Entries.get?_append_cons hfront, Option.getD_some, Entries.put_append_cons hfront]
    exact ih _

/-- The links of a list with payloads that are chosen, with these changed. -/
def changedLinks (links : List Link) (chosen : List Int → Bool)
    (change : List Int → List Int) : List Link :=
  (links.filter fun link => chosen link.payload).map fun link =>
    { link with payload := change link.payload }

theorem changedLinks_eq_nil_iff {links : List Link} {chosen : List Int → Bool}
    (change : List Int → List Int) :
    changedLinks links chosen change = [] ↔ links.filter (fun link => chosen link.payload) = [] :=
  List.map_eq_nil_iff

theorem changedLinks_cons_of_pos {chosen : List Int → Bool} {link : Link}
    (hchosen : chosen link.payload = true) (rest : List Link) (change : List Int → List Int) :
    changedLinks (link :: rest) chosen change =
      { link with payload := change link.payload } :: changedLinks rest chosen change := by
  simp [changedLinks, hchosen]

theorem changedLinks_cons_of_neg {chosen : List Int → Bool} {link : Link}
    (hchosen : ¬ chosen link.payload = true) (rest : List Link) (change : List Int → List Int) :
    changedLinks (link :: rest) chosen change = changedLinks rest chosen change := by
  simp [changedLinks, hchosen]

theorem changedLinks_eq_map (hlinks : record.links.Distinct) (category : String)
    (chosen : List Int → Bool) (change : List Int → List Int) :
    changedLinks (record.linkList (some category)) chosen change =
      ((((record.links.get? category).getD []).filter fun entry => chosen entry.2).map
        fun entry => (entry.1, change entry.2)).map fun entry => ⟨category, entry.1, entry.2⟩ := by
  simp [changedLinks, linkList_eq_map hlinks, List.filter_map, Function.comp_def]

/-- Writing the changed links of a category changes them where they stand. -/
theorem foldl_putLink_changedLinks (htidy : record.Tidy) (category : String)
    (chosen : List Int → Bool) (change : List Int → List Int) :
    (changedLinks (record.linkList (some category)) chosen change).foldl putLink record.links =
      record.links.map fun entry =>
        (entry.1, if entry.1 = category then entry.2.map fun link =>
            (link.1, if chosen link.2 then change link.2 else link.2)
          else entry.2) := by
  have hsame : ∀ {others : Links}, (∀ entry ∈ others, (entry.1 == category) = false) →
      others.map (fun entry => (entry.1, if entry.1 = category then entry.2.map fun link =>
          (link.1, if chosen link.2 then change link.2 else link.2) else entry.2)) = others := by
    intro others hothers
    refine (List.map_congr_left fun entry hentry => ?_).trans (List.map_id others)
    have hother : entry.1 ≠ category := by simpa using hothers entry hentry
    rw [if_neg hother]
    rfl
  rw [changedLinks_eq_map htidy.links]
  by_cases hhas : ∃ targets, (category, targets) ∈ record.links
  · obtain ⟨targets, hmem⟩ := hhas
    obtain ⟨front, back, hsplit⟩ := List.append_of_mem hmem
    have hlinks := htidy.links
    rw [hsplit] at hlinks
    obtain ⟨-, hback, hapart⟩ := List.pairwise_append.mp hlinks
    have hfront : ∀ entry ∈ front, (entry.1 == category) = false := fun entry hentry =>
      hapart entry hentry _ List.mem_cons_self
    have hbehind : ∀ entry ∈ back, (entry.1 == category) = false := fun entry hentry => by
      rw [BEq.comm]
      exact (List.pairwise_cons.mp hback).1 entry hentry
    rw [hsplit, Entries.get?_append_cons hfront, Option.getD_some,
      foldl_putLink_append_cons hfront, Entries.foldl_put_map (htidy.targets _ hmem)]
    simp [hsame hfront, hsame hbehind]
  · have hothers : ∀ entry ∈ record.links, (entry.1 == category) = false := by
      intro entry hentry
      rw [beq_eq_false_iff_ne]
      rintro rfl
      exact hhas ⟨entry.2, hentry⟩
    rw [Entries.get?_eq_none_of_forall hothers, hsame hothers]
    rfl

end Record

/-! ## Payloads -/

/-- A payload with the number at each position changed by the function at that position; numbers
without one are kept. -/
def rewrittenPayload (transformers : List (Int → Int)) (payload : List Int) : List Int :=
  payload.mapIdx fun position number => (transformers[position]?).elim number (· number)

@[simp]
theorem rewrittenPayload_nil (payload : List Int) : rewrittenPayload [] payload = payload := by
  apply List.ext_getElem?
  simp [rewrittenPayload]

namespace Procedure

variable {transformers : List (Int → Int)}

theorem transformPayload_pure (transformers : List (Int → Int)) (payload : List Int) :
    transformPayload (transformers.map fun transformer number => pure (transformer number))
      payload = pure (rewrittenPayload transformers payload) := by
  induction payload generalizing transformers with
  | nil =>
    rw [transformPayload]
    rfl
  | cons number rest ih =>
    cases transformers with
    | nil =>
      rw [List.map_nil, transformPayload, rewrittenPayload_nil]
      simp
    | cons transformer others =>
      have htransformed : rewrittenPayload (transformer :: others) (number :: rest) =
          transformer number :: rewrittenPayload others rest := by
        simp [rewrittenPayload, List.mapIdx_cons]
      rw [List.map_cons, transformPayload, ih, htransformed]
      simp

variable {ref : RecordRef} {before : World} {mod : Mod}

/-- The accepted links of a list are written one after the other. -/
theorem amended_editLinks (transformers : List (Int → Int)) (accepts : List Int → Bool)
    (links : List Link) (htargets : before.HasTargets [ref])
    (hmod : before.active = some mod)
    (hundeleted : (before.pool.get ref).id ∉ mod.deleted) :
    ∃ after,
      (editLinks ref (transformers.map fun transformer number => pure (transformer number))
        (fun payload => pure (accepts payload)) links).Yields before
          (links.countP fun link => accepts link.payload) after ∧
      World.Amended [ref] (fun _ =>
        (Record.changedLinks links accepts (rewrittenPayload transformers)).map .link)
          before after := by
  induction links generalizing before mod with
  | nil =>
    refine ⟨before, ?_, htargets.amended_of_same rfl rfl⟩
    rw [editLinks]
    exact yields_pure.mpr ⟨rfl, rfl⟩
  | cons link rest ih =>
    by_cases haccepted : accepts link.payload = true
    · let edit : Record.Edit :=
        .link { link with payload := rewrittenPayload transformers link.payload }
      obtain ⟨result, between, hwrite, -⟩ := World.exists_yields_write hmod edit.apply hundeleted
      have hfirst := htargets.amended_write (List.mem_singleton_self ref) hwrite
      have hleft := htargets.amended hfirst
      obtain ⟨_, patched, hother, hpatched, hamended⟩ := hfirst
      obtain rfl := Option.some.inj (hmod.symm.trans hother)
      have hstill : (between.pool.get ref).id ∉ patched.deleted := by
        rw [hamended.id_eq (List.mem_singleton_self ref), hamended.deleted]
        exact hundeleted
      obtain ⟨after, hrest, hlast⟩ := ih hleft hpatched hstill
      refine ⟨after, ?_, ?_⟩
      · rw [editLinks, List.countP_cons, if_pos haccepted]
        refine yields_bind.mpr ⟨true, before, yields_pure.mpr ⟨haccepted, rfl⟩, ?_⟩
        rw [if_pos rfl, transformPayload_pure]
        refine yields_bind.mpr ⟨_, before, yields_pure.mpr ⟨rfl, rfl⟩, ?_⟩
        refine yields_bind.mpr ⟨result, between, hwrite, ?_⟩
        exact yields_bind.mpr ⟨_, after, hrest, yields_pure.mpr ⟨rfl, rfl⟩⟩
      · refine (World.Amended.trans ⟨mod, patched, hmod, hpatched, hamended⟩ hlast).congr ?_
        intro target htarget
        rw [List.mem_singleton.mp htarget, onlyOn_self,
          Record.changedLinks_cons_of_pos haccepted]
        rfl
    · obtain ⟨after, hrest, hlast⟩ := ih htargets hmod hundeleted
      refine ⟨after, ?_, ?_⟩
      · rw [editLinks, List.countP_cons, if_neg haccepted]
        refine yields_bind.mpr ⟨false, before, yields_pure.mpr ⟨?_, rfl⟩, hrest⟩
        simpa using haccepted
      · rwa [Record.changedLinks_cons_of_neg haccepted]

end Procedure

/-! ## The record and the version -/

namespace Record

variable {record : Record}

/-- Links that are written to a record. -/
theorem edited_links (record : Record) (links : List Link) :
    record.edited (links.map .link) = { record with links := links.foldl putLink record.links } := by
  induction links generalizing record with
  | nil => rfl
  | cons link rest ih =>
    rw [List.map_cons, ← List.singleton_append, edited_append, edited_singleton, ih]
    rfl

/-- The payloads of a record to which the changed links of a category of another record have been
written. -/
theorem payload?_edited_changedLinks (base : Record) (htidy : record.Tidy) (category : String)
    (chosen : List Int → Bool) (change : List Int → List Int) (other target : String) :
    (base.edited
        ((changedLinks (record.linkList (some category)) chosen change).map .link)).payload?
          other target =
      (if other = category then ((record.payload? category target).filter chosen).map change
        else none).or (base.payload? other target) := by
  have htargets := distinct_targets htidy.targets category
  rw [edited_links, payload?_eq, changedLinks_eq_map htidy.links,
    payloadIn_foldl_targets _ _ ?_ other target, Entries.get?_filter_map htargets]
  · by_cases hother : other = category
    · simp only [hother, if_true, payload?_eq]
      congr 2
      rw [payloadIn]
      cases record.links.get? category <;> rfl
    · rw [if_neg hother, if_neg (Ne.symm hother)]
      rfl
  · exact (htargets.filter _).map _ fun _ _ hne => hne

end Record

/-! ## Editing -/

/-- A store edits the links of a category: it counts the links whose payload is accepted, and
these get payloads of the same length that are rewritten position by position.  The links stay
where they are, and the version that the mod has of the record gets the same payloads; it is made
only if there is something to write to it. -/
theorem editCategory_rewrites_accepted {world : World} {mod : Mod} {ref : RecordRef}
    (hmod : world.active = some mod) (hheld : world.pool.Holds ref)
    (hown : ∀ own ∈ mod.records, world.pool.Holds own) (htidy : (world.pool.get ref).Tidy)
    (hundeleted : (world.pool.get ref).id ∉ mod.deleted) (category : String)
    (transformers : List (Int → Int)) (validator : Option (List Int → Bool)) :
    let record := world.pool.get ref
    let accepts := fun payload => validator.all fun accepts => accepts payload
    let accepted := (record.linkList (some category)).filter fun link => accepts link.payload
    ∃ after patched,
      (Procedure.editCategory ref category
        (transformers.map fun transformer number => pure (transformer number))
        fun payload => pure (accepts payload)).Yields world accepted.length after ∧
      after.active = some patched ∧ patched.name = mod.name ∧ patched.deleted = mod.deleted ∧
      after.pool.get ref = { record with
        links := record.links.map fun (here, targets) =>
          (here, if here = category then targets.map fun (target, payload) =>
              (target, if accepts payload then rewrittenPayload transformers payload else payload)
            else targets) } ∧
      (accepted = [] → patched.version? after.pool record.id = mod.version? world.pool record.id) ∧
      (accepted ≠ [] → ∃ own, patched.version? after.pool record.id = some own ∧
        let base := (mod.version? world.pool record.id).getD (Merge.overrideOf record mod.name)
        own = { base with links := own.links } ∧
        ∀ here target, own.payload? here target =
          (if here = category then
              ((record.payload? category target).filter accepts).map (rewrittenPayload transformers)
            else none).or (base.payload? here target)) ∧
      (∀ id, id ≠ record.id → patched.version? after.pool id = mod.version? world.pool id) ∧
      ∀ other, world.pool.Holds other → other ≠ ref → mod.find? world.pool record.id ≠ some other →
        after.pool.get other = world.pool.get other := by
  intro record accepts accepted
  have htargets : world.HasTargets [ref] := by
    refine ⟨mod, hmod, ?_, hown, ?_⟩
    · intro target htarget
      rwa [List.mem_singleton.mp htarget]
    · intro first hfirst second hsecond _
      rw [List.mem_singleton.mp hfirst, List.mem_singleton.mp hsecond]
  obtain ⟨after, hyields, other, patched, hother, hpatched, hamended⟩ :=
    Procedure.amended_editLinks transformers accepts
      (record.linkList (some category)) htargets hmod hundeleted
  obtain rfl := Option.some.inj (hmod.symm.trans hother)
  have hmem := List.mem_singleton_self ref
  have hsingle : ∀ {id}, id ≠ record.id → ∀ target ∈ [ref], (world.pool.get target).id ≠ id := by
    intro id hdiffers target htarget
    rw [List.mem_singleton.mp htarget]
    exact hdiffers.symm
  refine ⟨after, patched, ?_, hpatched, hamended.name, hamended.deleted, ?_, ?_, ?_,
    fun id hdiffers => hamended.others id (hsingle hdiffers), ?_⟩
  · rw [← List.countP_eq_length_filter]
    exact yields_bind.mpr ⟨record, world, yields_record.mpr ⟨rfl, rfl⟩, hyields⟩
  · rw [hamended.target ref hmem, Record.edited_links, Record.foldl_putLink_changedLinks htidy]
  · intro hnone
    rw [hamended.version ref hmem, (Record.changedLinks_eq_nil_iff _).mpr hnone]
    rfl
  · intro hsome
    let base := (mod.version? world.pool record.id).getD (Merge.overrideOf record mod.name)
    refine ⟨base.edited ((Record.changedLinks (record.linkList (some category)) accepts
      (rewrittenPayload transformers)).map .link), ?_, ?_, fun here target => ?_⟩
    · have hedits := (Record.changedLinks_eq_nil_iff (rewrittenPayload transformers)).not.mpr hsome
      rw [hamended.version ref hmem]
      exact Mod.editedVersion_of_ne_nil (List.map_eq_nil_iff.not.mpr hedits)
    · rw [Record.edited_links]
    · exact Record.payload?_edited_changedLinks base htidy category accepts _ here target
  · intro other hotherHeld hdiffers hnotOwn
    refine hamended.rest other hotherHeld (by simpa using hdiffers) fun target htarget => ?_
    rwa [List.mem_singleton.mp htarget]

/-- A loaded weapon with three links of a category. -/
def hammered : Record :=
  { id := "3-base", kind := "WEAPON", mod := "base", isNew := true
    fields := [(.str "damage", .int 5)]
    links := [("MATERIAL", [("10-base", [1, 0, 0]), ("11-base", [7]), ("12-base", [2, 3])]),
      ("RACE", [("10-base", [1])])] }

/-- A world in which a mod with a version of the weapon is being patched. -/
def smithy : World where
  pool := ⟨#[hammered, { id := "3-base", kind := "WEAPON", mod := "forge"
                         links := [("MATERIAL", [("12-base", [9, 9])])] }]⟩
  active := some { name := "forge", records := [⟨1⟩] }

theorem smithy_rewrites_accepted :
    ∃ after patched,
      (Procedure.editCategory ⟨0⟩ "MATERIAL" ([(· + 1), (· * 2)].map
          fun transformer number => pure (transformer number))
        fun payload => pure (payload.length != 1)).Yields smithy 2 after ∧
      after.active = some patched ∧
      after.pool.get ⟨0⟩ = { hammered with
        links := [("MATERIAL", [("10-base", [2, 0, 0]), ("11-base", [7]), ("12-base", [3, 6])]),
          ("RACE", [("10-base", [1])])] } ∧
      ∃ own, patched.version? after.pool "3-base" = some own ∧
        own.payload? "MATERIAL" "10-base" = some [2, 0, 0] ∧
        own.payload? "MATERIAL" "11-base" = none ∧
        own.payload? "MATERIAL" "12-base" = some [3, 6] := by
  have hheld : smithy.pool.Holds ⟨0⟩ := by
    change 0 < 2
    decide
  have hown : ∀ own ∈ [(⟨1⟩ : RecordRef)], smithy.pool.Holds own := by
    intro own hmem
    rw [List.mem_singleton.mp hmem]
    change 1 < 2
    decide
  have hmod : smithy.active = some { name := "forge", records := [⟨1⟩] } := rfl
  obtain ⟨after, patched, hyields, hpatched, -, -, hrecord, -, hversion, -⟩ :=
    editCategory_rewrites_accepted hmod hheld hown (by decide) (by simp) "MATERIAL"
      [(· + 1), (· * 2)] (some fun payload => payload.length != 1)
  obtain ⟨own, hown, -, hpayloads⟩ := hversion (by decide)
  refine ⟨after, patched, hyields, hpatched, hrecord, own, hown, ?_, ?_, ?_⟩
  all_goals
    rw [hpayloads]
    rfl

end Patchwork
