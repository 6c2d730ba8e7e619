import Patchwork.Evaluation.Calls
import Patchwork.Proofs.Relocation.Worlds

/-!
# Calls of built-ins after a relocation

Functions, predicates and commands do corresponding things with corresponding
arguments.
-/

namespace Patchwork

open Agree Eval

variable {relocation : Relocation}

/-! ## Coercions of values -/

namespace Relocation.Values

variable {value value' : Value}

theorem string (hvalues : relocation.Values value value') (purpose : String) :
    Computations relocation.Worlds Eq (labelled (value.expectString · purpose))
      (labelled (value'.expectString · purpose)) := by
  refine labelled_relocate fun labels labels' hlabels => ?_
  rw [hvalues.1, Value.expectString_relocate hlabels]
  exact Outcomes.of_eq rfl

theorem boolean (hvalues : relocation.Values value value') (purpose : String) :
    Computations relocation.Worlds Eq (labelled (value.expectBoolean · purpose))
      (labelled (value'.expectBoolean · purpose)) := by
  refine labelled_relocate fun labels labels' hlabels => ?_
  rw [hvalues.1, Value.expectBoolean_relocate hlabels]
  exact Outcomes.of_eq rfl

theorem integer (hvalues : relocation.Values value value') (purpose : String) :
    Computations relocation.Worlds Eq (labelled (value.expectInteger · purpose))
      (labelled (value'.expectInteger · purpose)) := by
  refine labelled_relocate fun labels labels' hlabels => ?_
  rw [hvalues.1, Value.expectInteger_relocate hlabels]
  exact Outcomes.of_eq rfl

theorem integers (hvalues : relocation.Values value value') (purpose : String) :
    Computations relocation.Worlds Eq (labelled (value.expectIntegers · purpose))
      (labelled (value'.expectIntegers · purpose)) :=
  labelled_relocate fun _ _ hlabels => Value.expectIntegers_relocate hlabels purpose hvalues

theorem group (hvalues : relocation.Values value value') (purpose : String) :
    Computations relocation.Worlds relocation.Groups (labelled (value.expectGroup · purpose))
      (labelled (value'.expectGroup · purpose)) :=
  labelled_relocate fun _ _ hlabels => Value.expectGroup_relocate hlabels purpose hvalues

theorem array (hvalues : relocation.Values value value') (purpose : String) :
    Computations relocation.Worlds (List.Forall₂ relocation.Values)
      (labelled (value.expectArray · purpose)) (labelled (value'.expectArray · purpose)) :=
  labelled_relocate fun _ _ hlabels => Value.expectArray_relocate hlabels purpose hvalues

theorem closure (hvalues : relocation.Values value value') (purpose : String) :
    Computations relocation.Worlds relocation.Closures
      (labelled (value.expectClosure · purpose)) (labelled (value'.expectClosure · purpose)) :=
  labelled_relocate fun _ _ hlabels => Value.expectClosure_relocate hlabels purpose hvalues

theorem toInteger (hvalues : relocation.Values value value') :
    Computations relocation.Worlds Eq (labelled value.toInteger) (labelled value'.toInteger) := by
  refine labelled_relocate fun labels labels' hlabels => ?_
  rw [hvalues.1, Value.toInteger_relocate hlabels]
  exact Outcomes.of_eq rfl

theorem toFloat (hvalues : relocation.Values value value') :
    Computations relocation.Worlds relocation.Numbers (labelled value.toFloat)
      (labelled value'.toFloat) := by
  refine labelled_relocate fun labels labels' hlabels => ?_
  rw [hvalues.1]
  exact Value.toFloat_relocate hlabels value

theorem toBoolean (hvalues : relocation.Values value value') :
    Computations relocation.Worlds Eq (labelled value.toBoolean) (labelled value'.toBoolean) := by
  refine labelled_relocate fun labels labels' hlabels => ?_
  rw [hvalues.1, Value.toBoolean_relocate hlabels]
  exact Outcomes.of_eq rfl

theorem display {labels labels' : Labels} (hvalues : relocation.Values value value')
    (hlabels : ∀ ref, labels' (relocation.ref ref) = labels ref) :
    value'.display labels' = value.display labels := by
  rw [hvalues.1, Value.display_relocate hlabels]

theorem summary {labels labels' : Labels} (hvalues : relocation.Values value value')
    (hlabels : ∀ ref, labels' (relocation.ref ref) = labels ref) :
    value'.summary labels' = value.summary labels := by
  rw [hvalues.1, Value.summary_relocate hlabels]

end Relocation.Values

theorem requireRecord_relocate (name : String) {current current' : Option RecordRef}
    (hcurrents : relocation.Currents current current') :
    Computations relocation.Worlds relocation.Refs (requireRecord name current)
      (requireRecord name current') := by
  obtain ⟨rfl, hfree⟩ := hcurrents
  cases current with
  | none => exact Computations.of_throw _
  | some ref => exact Computations.of_pure ⟨rfl, hfree ref rfl⟩

/-! ## Functions -/

namespace Function

theorem numbers_relocate (purpose : String) {value value' : Value}
    (hvalues : relocation.Values value value') :
    Computations relocation.Worlds (List.Forall₂ relocation.Numbers) (numbers purpose value)
      (numbers purpose value') := by
  refine (hvalues.array purpose).of_bind fun items items' hitems => ?_
  have hempty : items'.isEmpty = items.isEmpty := by
    cases hitems <;> rfl
  rw [hempty]
  split
  · exact Computations.of_throw_bind _ _ _
  · exact Computations.of_mapM hitems fun _ _ => Relocation.Values.toFloat

theorem foldl_relocate {prefers : Binary64 → Binary64 → Bool}
    (hprefers : ∀ left right, prefers (left.remark relocation.mark)
      (right.remark relocation.mark) = prefers left right)
    {numbers numbers' : List Binary64}
    (hnumbers : List.Forall₂ relocation.Numbers numbers numbers') {best best' : Binary64}
    (hbest : relocation.Numbers best best') :
    relocation.Numbers
      (numbers.foldl (fun best number => if prefers number best then number else best) best)
      (numbers'.foldl (fun best number => if prefers number best then number else best)
        best') := by
  induction hnumbers generalizing best best' with
  | nil => exact hbest
  | cons hfirst _ ih =>
    rw [List.foldl_cons, List.foldl_cons]
    apply ih
    rw [hbest, hfirst, hprefers]
    split <;> rfl

theorem zero_relocate : relocation.Numbers .zero .zero :=
  (Binary64.remark_ofUnits false 0).symm

theorem least_relocate {numbers numbers' : List Binary64}
    (hnumbers : List.Forall₂ relocation.Numbers numbers numbers') :
    relocation.Numbers (least numbers) (least numbers') := by
  cases hnumbers with
  | nil => exact zero_relocate
  | cons hfirst hrest => exact foldl_relocate (fun _ _ => by simp) hrest hfirst

theorem greatest_relocate {numbers numbers' : List Binary64}
    (hnumbers : List.Forall₂ relocation.Numbers numbers numbers') :
    relocation.Numbers (greatest numbers) (greatest numbers') := by
  cases hnumbers with
  | nil => exact zero_relocate
  | cons hfirst hrest =>
    refine foldl_relocate ?_ hrest hfirst
    intro number best
    simp

theorem cloneGroup_relocate {group group' : Group} (hgroups : relocation.Groups group group')
    (count : Int) :
    Computations relocation.Worlds relocation.Values (cloneGroup group count)
      (cloneGroup group' count) := by
  obtain ⟨rfl, hfree⟩ := hgroups
  obtain ⟨members⟩ := group
  match members with
  | [] => exact Computations.of_throw _
  | first :: second :: rest =>
    simp only [cloneGroup, Group.relocate, List.map_cons, List.length_cons, List.length_map]
    exact Computations.of_throw _
  | [member] =>
    have hrefs : relocation.Refs member.record (relocation.ref member.record) :=
      ⟨rfl, hfree member (List.mem_singleton_self member)⟩
    refine requireActive_relocate.of_bind fun mod mod' hmods => ?_
    refine (onActive_relocate (Work.cloneRecord_relocate hrefs count)).of_bind
      fun clones clones' hclones => Computations.of_pure (Relocation.values_group ?_)
    obtain ⟨rfl, hclonesFree⟩ := forall₂_eq_map_iff.mp hclones
    rw [hmods.1, Mod.name_relocate]
    refine ⟨?_, fun clone hclone => ?_⟩
    · simp only [Group.relocate, List.map_map]
      rfl
    · obtain ⟨ref, href, rfl⟩ := List.mem_map.mp hclone
      exact hclonesFree ref href

/-- An element of an array, which has to be an integer. -/
theorem integerElement_relocate {element element' : Value}
    (helements : relocation.Values element element') :
    Computations relocation.Worlds relocation.Values
      (do
        if element.isIntegerLike then return .integer (← labelled element.toInteger)
        else fail (.elementNotInteger (element.summary (← labels))))
      (do
        if element'.isIntegerLike then return .integer (← labelled element'.toInteger)
        else fail (.elementNotInteger (element'.summary (← labels)))) := by
  rw [helements.1, Value.isIntegerLike_relocate, ← helements.1]
  split
  · refine helements.toInteger.of_bind fun number number' hnumber => ?_
    subst hnumber
    exact Computations.of_pure (Relocation.values_integer number)
  · refine labels_relocate.of_bind fun labels labels' hlabels => ?_
    rw [helements.summary hlabels]
    exact Computations.of_throw _

variable {arguments arguments' : List Argument} {current current' : Option RecordRef}

theorem result_relocate (function : Function)
    (harguments : List.Forall₂ relocation.Arguments arguments arguments')
    (hcurrents : relocation.Currents current current') :
    Computations relocation.Worlds relocation.Values (function.result current arguments)
      (function.result current' arguments') := by
  have hargument := fun position =>
    argument_relocate function.name harguments position hcurrents
  cases function with
  | getField =>
    refine (requireRecord_relocate _ hcurrents).of_bind fun ref ref' hrefs => ?_
    refine (hargument 0).of_bind fun value value' hvalues => ?_
    refine (hvalues.string _).of_bind fun name name' hname => ?_
    refine (record_relocate hrefs).of_bind fun record record' hrecord => ?_
    subst hname hrecord
    rw [Record.field?_remark relocation.mark_injective, Record.label_remark]
    cases record.field? name with
    | none => exact Computations.of_throw _
    | some plain => exact agree_settle (Value.ofPlain_relocate plain)
  | toInt =>
    refine (hargument 0).of_bind fun value value' hvalues => ?_
    refine hvalues.toInteger.of_bind fun number number' hnumber => ?_
    subst hnumber
    exact Computations.of_pure (Relocation.values_integer number)
  | toFloat =>
    refine (hargument 0).of_bind fun value value' hvalues => ?_
    refine hvalues.toFloat.of_bind fun number number' hnumber => ?_
    subst hnumber
    exact Computations.of_pure (Relocation.values_float number)
  | min =>
    refine (hargument 0).of_bind fun value value' hvalues => ?_
    refine (numbers_relocate _ hvalues).of_bind fun numbers numbers' hnumbers => ?_
    rw [least_relocate hnumbers]
    exact Computations.of_pure (Value.ofNumber_relocate _)
  | max =>
    refine (hargument 0).of_bind fun value value' hvalues => ?_
    refine (numbers_relocate _ hvalues).of_bind fun numbers numbers' hnumbers => ?_
    rw [greatest_relocate hnumbers]
    exact Computations.of_pure (Value.ofNumber_relocate _)
  | arrIndex =>
    refine (hargument 0).of_bind fun value value' hvalues => ?_
    refine (hvalues.array _).of_bind fun items items' hitems => ?_
    refine (hargument 1).of_bind fun index index' hindexes => ?_
    refine (hindexes.integer _).of_bind fun position position' hposition => ?_
    subst hposition
    obtain ⟨rfl, hfree⟩ := forall₂_eq_map_iff.mp hitems
    rw [List.length_map, List.getElem?_map]
    dsimp only
    split
    · exact Computations.of_throw_bind _ _ _
    · cases helement : items[position.toNat]? with
      | none => exact Computations.of_throw _
      | some element =>
        exact integerElement_relocate ⟨rfl, hfree element (List.mem_of_getElem? helement)⟩
  | randomFloat =>
    refine Computations.of_get.of_bind fun world world' hworlds => ?_
    rw [hworlds.draws]
    refine (Computations.of_set ⟨hworlds.pools, hworlds.active, rfl, hworlds.stopping,
      hworlds.marks⟩).of_bind fun _ _ _ => Computations.of_pure ?_
    exact Relocation.values_float_of_eq (Binary64.remark_ofRatio _ _ _)
  | randomBetweenInts =>
    refine (hargument 0).of_bind fun first first' hfirst => ?_
    refine (hfirst.integer _).of_bind fun low low' hlow => ?_
    refine (hargument 1).of_bind fun second second' hsecond => ?_
    refine (hsecond.integer _).of_bind fun high high' hhigh => ?_
    subst hlow hhigh
    dsimp only
    split
    · exact Computations.of_throw_bind _ _ _
    · split
      · exact Computations.of_pure (Relocation.values_integer low)
      · refine Computations.of_get.of_bind fun world world' hworlds => ?_
        rw [hworlds.draws]
        exact (Computations.of_set ⟨hworlds.pools, hworlds.active, rfl, hworlds.stopping,
          hworlds.marks⟩).of_bind fun _ _ _ =>
            Computations.of_pure (Relocation.values_integer _)
  | containsExact | containsFolded =>
    refine (hargument 0).of_bind fun first first' hfirst => ?_
    refine (hfirst.string _).of_bind fun text text' htext => ?_
    refine (hargument 1).of_bind fun second second' hsecond => ?_
    refine (hsecond.string _).of_bind fun part part' hpart => ?_
    subst htext hpart
    exact Computations.of_pure (Relocation.values_boolean _)
  | count =>
    refine (hargument 0).of_bind fun value value' hvalues => ?_
    refine (hvalues.group _).of_bind fun group group' hgroups => ?_
    rw [hgroups.1, Group.size_relocate]
    exact Computations.of_pure (Relocation.values_integer _)
  | clone =>
    refine (hargument 0).of_bind fun value value' hvalues => ?_
    refine (hvalues.group _).of_bind fun group group' hgroups => ?_
    refine (hargument 1).of_bind fun second second' hsecond => ?_
    refine (hsecond.integer _).of_bind fun count count' hcount => ?_
    subst hcount
    exact cloneGroup_relocate hgroups count

theorem apply_relocate (function : Function)
    (harguments : List.Forall₂ relocation.Arguments arguments arguments')
    (hcurrents : relocation.Currents current current') :
    Computations relocation.Worlds relocation.Values (function.apply current arguments)
      (function.apply current' arguments') :=
  (result_relocate function harguments hcurrents).of_bind fun _ _ => mark_relocate

end Function

/-! ## Predicates -/

namespace Predicate

variable {arguments arguments' : List Argument} {current current' : Option RecordRef}

theorem linkArguments_relocate (harguments : List.Forall₂ relocation.Arguments arguments arguments')
    {argument argument' : Nat → Eval Value}
    (hargument : ∀ position,
      Computations relocation.Worlds relocation.Values (argument position) (argument' position)) :
    Computations relocation.Worlds
      (fun links links' => relocation.Groups links.1 links'.1 ∧ links'.2 = links.2)
      (linkArguments arguments argument) (linkArguments arguments' argument') := by
  unfold linkArguments
  rw [← harguments.length_eq]
  refine (hargument 0).of_bind fun value value' hvalues => ?_
  refine (hvalues.group _).of_bind fun group group' hgroups => ?_
  split
  · exact Computations.of_pure ⟨hgroups, rfl⟩
  · refine (hargument 1).of_bind fun second second' hsecond => ?_
    refine (hsecond.string _).of_bind fun category category' hcategory => ?_
    subst hcategory
    split
    · exact Computations.of_pure ⟨hgroups, rfl⟩
    · refine (hargument 2).of_bind fun third third' hthird => ?_
      refine (hthird.integers _).of_bind fun payload payload' hpayload => ?_
      subst hpayload
      exact Computations.of_pure ⟨hgroups, rfl⟩

theorem testField_relocate (predicate : Predicate)
    (hcurrents : relocation.Currents current current') {argument argument' : Nat → Eval Value}
    (hargument : ∀ position,
      Computations relocation.Worlds relocation.Values (argument position) (argument' position))
    {test : Record → String → Bool}
    (htest : ∀ record name, test (record.remark relocation.mark) name = test record name) :
    Computations relocation.Worlds Eq (predicate.testField current argument test)
      (predicate.testField current' argument' test) := by
  refine (requireRecord_relocate _ hcurrents).of_bind fun ref ref' hrefs => ?_
  refine (hargument 0).of_bind fun value value' hvalues => ?_
  refine (hvalues.string _).of_bind fun name name' hname => ?_
  refine (record_relocate hrefs).of_bind fun record record' hrecord => ?_
  subst hname hrecord
  exact Computations.of_pure (htest record name).symm

theorem testLinks_relocate (predicate : Predicate)
    (harguments : List.Forall₂ relocation.Arguments arguments arguments')
    (hcurrents : relocation.Currents current current') {argument argument' : Nat → Eval Value}
    (hargument : ∀ position,
      Computations relocation.Worlds relocation.Values (argument position) (argument' position))
    {test : Record → List Record → Option String → Option (List Int) → Bool}
    (htest : ∀ record others category payload,
      test (record.remark relocation.mark) (others.map (Record.remark relocation.mark))
        category payload = test record others category payload) :
    Computations relocation.Worlds Eq (predicate.testLinks current arguments argument test)
      (predicate.testLinks current' arguments' argument' test) := by
  refine (requireRecord_relocate _ hcurrents).of_bind fun ref ref' hrefs => ?_
  refine (linkArguments_relocate harguments hargument).of_bind fun links links' hlinks => ?_
  obtain ⟨group, category, payload⟩ := links
  obtain ⟨group', category', payload'⟩ := links'
  have hgroups : relocation.Groups group group' := hlinks.1
  cases hlinks.2
  refine Computations.of_get.of_bind fun world world' hworlds => Computations.of_pure ?_
  have hrecords : group'.records.map world'.pool.get =
      (group.records.map world.pool.get).map (Record.remark relocation.mark) := by
    rw [hgroups.1, Group.records_relocate, List.map_map, List.map_map]
    exact List.map_congr_left fun other _ => hworlds.pools.get other
  rw [hrecords, hrefs.1, hworlds.pools.get, htest]

theorem apply_relocate (predicate : Predicate)
    (harguments : List.Forall₂ relocation.Arguments arguments arguments')
    (hcurrents : relocation.Currents current current') :
    Computations relocation.Worlds Eq (predicate.apply current arguments)
      (predicate.apply current' arguments') := by
  have hargument := fun position =>
    argument_relocate predicate.name harguments position hcurrents
  have hfields : ∀ (record : Record) (name : String),
      (record.remark relocation.mark).hasField name = record.hasField name :=
    Record.hasField_remark relocation.mark_injective
  have hempty : ∀ (record : Record) (name : String),
      (record.remark relocation.mark).fieldIsEmpty name = record.fieldIsEmpty name :=
    Record.fieldIsEmpty_remark relocation.mark_injective
  cases predicate with
  | always => exact Computations.of_pure rfl
  | never => exact Computations.of_pure rfl
  | fieldExist => exact testField_relocate _ hcurrents hargument hfields
  | fieldIsNotEmpty =>
    refine testField_relocate _ hcurrents hargument fun record name => ?_
    rw [hfields, hempty]
  | fieldIsEmptyOrNotExist =>
    refine testField_relocate _ hcurrents hargument fun record name => ?_
    rw [hfields, hempty]
  | fieldIsEmptyAndExist =>
    refine testField_relocate _ hcurrents hargument fun record name => ?_
    rw [hfields, hempty]
  | isLinkOfAny =>
    unfold apply
    refine testLinks_relocate _ harguments hcurrents hargument fun _ others _ _ => ?_
    simp only [List.any_map, Function.comp_def, Record.hasLink_remark, Record.id_remark]
  | linksAny =>
    unfold apply
    refine testLinks_relocate _ harguments hcurrents hargument fun _ others _ _ => ?_
    simp only [List.any_map, Function.comp_def, Record.hasLink_remark, Record.id_remark]
  | linksAll =>
    unfold apply
    refine testLinks_relocate _ harguments hcurrents hargument fun _ others _ _ => ?_
    simp only [List.all_map, Function.comp_def, Record.hasLink_remark, Record.id_remark]
  | isRemoved =>
    refine (requireRecord_relocate _ hcurrents).of_bind fun ref ref' hrefs => ?_
    refine (record_relocate hrefs).of_bind fun record record' hrecord => ?_
    subst hrecord
    exact Computations.of_pure (Record.isRemoved_remark relocation.mark_injective record).symm

end Predicate

/-! ## Commands -/

namespace Command

variable {arguments arguments' : List Argument} {current current' : Option RecordRef}

theorem joinedArguments_relocate
    (harguments : List.Forall₂ relocation.Arguments arguments arguments')
    (hcurrents : relocation.Currents current current') :
    Computations relocation.Worlds Eq (joinedArguments current arguments)
      (joinedArguments current' arguments') := by
  have htexts : Computations relocation.Worlds (List.Forall₂ Eq)
      (arguments.mapM fun argument => do return (← argument current).display (← labels))
      (arguments'.mapM fun argument => do return (← argument current').display (← labels)) := by
    refine Computations.of_mapM harguments fun argument argument' hargument => ?_
    refine (hargument current current' hcurrents).of_bind fun value value' hvalues => ?_
    refine labels_relocate.of_bind fun labels labels' hlabels => Computations.of_pure ?_
    rw [hvalues.display hlabels]
  refine htexts.of_bind fun texts texts' heq => Computations.of_pure ?_
  rw [List.forall₂_eq_eq_eq] at heq
  rw [heq]

theorem apply_relocate (repository : Repository) (command : Command)
    (harguments : List.Forall₂ relocation.Arguments arguments arguments')
    (hcurrents : relocation.Currents current current') :
    Computations relocation.Worlds Eq (command.apply repository current arguments)
      (command.apply (repository.relocate relocation) current' arguments') := by
  have hargument := fun position =>
    argument_relocate command.name harguments position hcurrents
  cases command with
  | print =>
    exact (joinedArguments_relocate harguments hcurrents).of_bind fun _ _ _ =>
      note_relocate _ _ _ _
  | debug =>
    exact (joinedArguments_relocate harguments hcurrents).of_bind fun _ _ _ =>
      note_relocate _ _ _ _
  | inspectRecord =>
    refine (hargument 0).of_bind fun value value' hvalues => ?_
    refine (hvalues.group _).of_bind fun group group' hgroups => ?_
    refine (hargument 1).of_bind fun second second' hsecond => ?_
    refine labels_relocate.of_bind fun labels labels' hlabels => ?_
    refine Computations.of_get.of_bind fun world world' hworlds => ?_
    dsimp only
    rw [hsecond.display hlabels, hgroups.1, Group.find?_relocate hworlds.pools]
    cases group.find? world.pool (second.display labels) with
    | none => exact Computations.of_throw _
    | some ref => exact note_relocate _ _ _ _
  | showRecordEvolution =>
    refine (hargument 0).of_bind fun value value' hvalues => ?_
    refine labels_relocate.of_bind fun labels labels' hlabels => ?_
    refine Computations.of_get.of_bind fun world world' hworlds => ?_
    dsimp only
    rw [hvalues.display hlabels, Repository.versions_relocate hworlds.pools, List.isEmpty_map]
    split
    · exact note_relocate _ _ _ _
    · refine Computations.of_forM (forall₂_eq_map_iff.mpr ⟨rfl, fun _ _ => trivial⟩)
        fun version version' _ => note_relocate _ _ _ _
  | stop =>
    refine (note_relocate _ _ _ _).of_bind fun _ _ _ => Computations.of_modify
      fun world world' hworlds => ?_
    exact ⟨hworlds.pools, hworlds.active, hworlds.draws, rfl, hworlds.marks⟩

end Command

end Patchwork
