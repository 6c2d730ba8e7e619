import Patchwork.Evaluation.Procedures
import Patchwork.Proofs.Relocation.Calls

/-!
# Procedures after a relocation

Procedures do corresponding things with corresponding groups, as long as calling
corresponding closures does.
-/

namespace Patchwork

open Agree Eval

/-- Two ways of calling closures that give corresponding values for
corresponding closures and arguments. -/
def Relocation.Callers (relocation : Relocation) (caller caller' : Caller) : Prop :=
  ∀ closure closure' arguments arguments', relocation.Closures closure closure' →
    List.Forall₂ relocation.Values arguments arguments' →
    Computations relocation.Worlds relocation.Values (caller closure arguments)
      (caller' closure' arguments')

namespace Procedure

variable {relocation : Relocation} {caller caller' : Caller}
variable {arguments arguments' : List Argument} {argument argument' : Nat → Eval Value}
variable {target target' source source' : RecordRef}

/-! ## Links -/

theorem transform_relocate (hcallers : relocation.Callers caller caller')
    {closure closure' : Closure} (hclosures : relocation.Closures closure closure')
    (number : Int) :
    Computations relocation.Worlds Eq (transform caller closure number)
      (transform caller' closure' number) := by
  have hnumbers : List.Forall₂ relocation.Values [.integer number] [.integer number] :=
    List.Forall₂.cons (Relocation.values_integer number) List.Forall₂.nil
  refine (hcallers _ _ _ _ hclosures hnumbers).of_bind fun value value' hvalues => ?_
  have hsummary : ∀ labels labels' : Labels, (∀ ref, labels' (relocation.ref ref) = labels ref) →
      value'.summary labels' = value.summary labels := fun _ _ => hvalues.summary
  obtain ⟨rfl, -⟩ := hvalues
  cases value with
  | integer transformed => exact Computations.of_pure rfl
  | _ =>
    refine labels_relocate.of_bind fun labels labels' hlabels => ?_
    rw [← hsummary labels labels' hlabels]
    exact Computations.of_throw _

theorem validate_relocate (hcallers : relocation.Callers caller caller')
    {closure closure' : Closure} (hclosures : relocation.Closures closure closure')
    (payload : List Int) :
    Computations relocation.Worlds Eq (validate caller closure payload)
      (validate caller' closure' payload) := by
  have hitems : List.Forall₂ relocation.Values (payload.map .integer)
      (payload.map .integer) := by
    induction payload with
    | nil => exact List.Forall₂.nil
    | cons number rest ih => exact List.Forall₂.cons (Relocation.values_integer number) ih
  have hpayloads : List.Forall₂ relocation.Values [.array (payload.map .integer)]
      [.array (payload.map .integer)] :=
    List.Forall₂.cons (Relocation.values_array hitems) List.Forall₂.nil
  exact (hcallers _ _ _ _ hclosures hpayloads).of_bind fun _ _ hvalues => hvalues.boolean _

theorem transformPayload_relocate {transformers transformers' : List (Int → Eval Int)}
    (htransformers : List.Forall₂ (fun transformer transformer' : Int → Eval Int =>
      ∀ number, Computations relocation.Worlds Eq (transformer number) (transformer' number))
      transformers transformers') (payload : List Int) :
    Computations relocation.Worlds Eq (transformPayload transformers payload)
      (transformPayload transformers' payload) := by
  induction payload generalizing transformers transformers' with
  | nil =>
    unfold transformPayload
    exact Computations.of_pure rfl
  | cons number rest ih =>
    cases htransformers with
    | nil => exact Computations.of_pure rfl
    | cons hfirst hrest =>
      refine (hfirst number).of_bind fun first first' heq => ?_
      subst heq
      refine (ih hrest).of_bind fun others others' heq => ?_
      subst heq
      exact Computations.of_pure rfl

theorem editLinks_relocate (hrefs : relocation.Refs target target')
    {transformers transformers' : List (Int → Eval Int)}
    (htransformers : List.Forall₂ (fun transformer transformer' : Int → Eval Int =>
      ∀ number, Computations relocation.Worlds Eq (transformer number) (transformer' number))
      transformers transformers')
    {accepts accepts' : List Int → Eval Bool}
    (haccepts : ∀ payload,
      Computations relocation.Worlds Eq (accepts payload) (accepts' payload))
    (links : List Link) :
    Computations relocation.Worlds Eq (editLinks target transformers accepts links)
      (editLinks target' transformers' accepts' links) := by
  induction links with
  | nil => exact Computations.of_pure rfl
  | cons link rest ih =>
    refine (haccepts link.payload).of_bind fun accepted accepted' heq => ?_
    subst heq
    split
    · refine (transformPayload_relocate htransformers link.payload).of_bind
        fun payload payload' heq => ?_
      subst heq
      refine (onActive_relocate (Work.relink_relocate hrefs _)).of_bind fun _ _ _ => ?_
      refine ih.of_bind fun count count' heq => ?_
      subst heq
      exact Computations.of_pure rfl
    · exact ih

theorem editCategory_relocate (hrefs : relocation.Refs target target') (category : String)
    {transformers transformers' : List (Int → Eval Int)}
    (htransformers : List.Forall₂ (fun transformer transformer' : Int → Eval Int =>
      ∀ number, Computations relocation.Worlds Eq (transformer number) (transformer' number))
      transformers transformers')
    {accepts accepts' : List Int → Eval Bool}
    (haccepts : ∀ payload,
      Computations relocation.Worlds Eq (accepts payload) (accepts' payload)) :
    Computations relocation.Worlds Eq (editCategory target category transformers accepts)
      (editCategory target' category transformers' accepts') := by
  refine (record_relocate hrefs).of_bind fun record record' hrecord => ?_
  subst hrecord
  exact editLinks_relocate hrefs htransformers haccepts _

theorem validatorArgument_relocate (hcallers : relocation.Callers caller caller')
    (harguments : List.Forall₂ relocation.Arguments arguments arguments')
    (hargument : ∀ position,
      Computations relocation.Worlds relocation.Values (argument position)
        (argument' position)) :
    Computations relocation.Worlds
      (fun accepts accepts' : List Int → Eval Bool => ∀ payload,
        Computations relocation.Worlds Eq (accepts payload) (accepts' payload))
      (validatorArgument caller arguments argument)
      (validatorArgument caller' arguments' argument') := by
  unfold validatorArgument
  rw [← harguments.length_eq]
  split
  · exact Computations.of_pure fun _ => Computations.of_pure rfl
  · refine (hargument 2).of_bind fun value value' hvalues => ?_
    refine (hvalues.closure _).of_bind fun closure closure' hclosures => ?_
    exact Computations.of_pure (validate_relocate hcallers hclosures)

/-! ## One target, or a target and a source -/

theorem onTarget_relocate (hcallers : relocation.Callers caller caller') (procedure : Procedure)
    (harguments : List.Forall₂ relocation.Arguments arguments arguments')
    (hrefs : relocation.Refs target target') :
    Computations relocation.Worlds Eq (procedure.onTarget caller arguments target)
      (procedure.onTarget caller' arguments' target') := by
  have hargument := fun position => argument_relocate procedure.name harguments position
    (Relocation.currents_some hrefs)
  cases procedure with
  | setField =>
    refine (hargument 0).of_bind fun first first' hfirst => ?_
    refine (hfirst.string _).of_bind fun name name' hname => ?_
    refine (hargument 1).of_bind fun value value' hvalues => ?_
    refine labels_relocate.of_bind fun labels labels' hlabels => ?_
    subst hname
    rw [hvalues.display hlabels]
    exact onActive_relocate (Work.setField_relocate hrefs _ _)
  | forceSetField =>
    refine (hargument 0).of_bind fun first first' hfirst => ?_
    refine (hfirst.string _).of_bind fun name name' hname => ?_
    refine (hargument 1).of_bind fun value value' hvalues => ?_
    refine (hargument 2).of_bind fun third third' hthird => ?_
    refine (hthird.string _).of_bind fun declared declared' hdeclared => ?_
    refine labels_relocate.of_bind fun labels labels' hlabels => ?_
    subst hname hdeclared
    rw [hvalues.display hlabels]
    exact onActive_relocate (Work.forceSetField_relocate hrefs _ _ _)
  | deleteRecords =>
    exact onActive_relocate (Work.deleteRecord_relocate hrefs)
  | editExtraData =>
    refine (hargument 0).of_bind fun first first' hfirst => ?_
    refine (hfirst.string _).of_bind fun category category' hcategory => ?_
    refine (hargument 1).of_bind fun second second' hsecond => ?_
    refine (hsecond.array _).of_bind fun lambdas lambdas' hlambdas => ?_
    refine (Computations.of_mapM hlambdas fun _ _ hitems => hitems.closure _).of_bind
      fun closures closures' hclosures => ?_
    refine (validatorArgument_relocate hcallers harguments hargument).of_bind
      fun accepts accepts' haccepts => ?_
    subst hcategory
    have htransformers : List.Forall₂ (fun transformer transformer' : Int → Eval Int =>
        ∀ number, Computations relocation.Worlds Eq (transformer number) (transformer' number))
        (closures.map (transform caller)) (closures'.map (transform caller')) := by
      rw [List.forall₂_map_left_iff, List.forall₂_map_right_iff]
      exact hclosures.imp fun _ _ => transform_relocate hcallers
    exact (editCategory_relocate hrefs category htransformers haccepts).of_bind fun _ _ _ =>
      Computations.of_pure rfl
  | _ => exact Computations.of_throw _

theorem payloadArgument_relocate
    (harguments : List.Forall₂ relocation.Arguments arguments arguments')
    (hargument : ∀ position,
      Computations relocation.Worlds relocation.Values (argument position)
        (argument' position)) (position : Nat) :
    Computations relocation.Worlds Eq (payloadArgument arguments argument position)
      (payloadArgument arguments' argument' position) := by
  unfold payloadArgument
  rw [← harguments.length_eq]
  split
  · exact Computations.of_pure rfl
  · refine (hargument position).of_bind fun value value' hvalues => ?_
    refine (hvalues.integers _).of_bind fun payload payload' heq => ?_
    subst heq
    exact Computations.of_pure rfl

theorem linkPair_relocate (procedure : Procedure)
    (harguments : List.Forall₂ relocation.Arguments arguments arguments')
    (hrefs : relocation.Refs target target') (hsource : relocation.Refs source source')
    (forced : Bool) :
    Computations relocation.Worlds Eq (linkPair procedure arguments target source forced)
      (linkPair procedure arguments' target' source' forced) := by
  have hargument := fun position => argument_relocate procedure.name harguments position
    (Relocation.currents_some hrefs)
  refine (hargument 1).of_bind fun first first' hfirst => ?_
  refine (hfirst.string _).of_bind fun category category' hcategory => ?_
  refine (payloadArgument_relocate harguments hargument 2).of_bind
    fun payload payload' hpayload => ?_
  subst hcategory hpayload
  exact onActive_relocate (Work.addLink_relocate hrefs hsource _ _ _)

theorem setFromSource_relocate (hcallers : relocation.Callers caller caller')
    (procedure : Procedure)
    (harguments : List.Forall₂ relocation.Arguments arguments arguments')
    (hrefs : relocation.Refs target target') (hsource : relocation.Refs source source') :
    Computations relocation.Worlds Eq (setFromSource caller procedure arguments target source)
      (setFromSource caller' procedure arguments' target' source') := by
  have hargument := fun position => argument_relocate procedure.name harguments position
    (Relocation.currents_some hrefs)
  have hsources := fun position => argument_relocate procedure.name harguments position
    (Relocation.currents_some hsource)
  refine (hargument 1).of_bind fun first first' hfirst => ?_
  refine (hfirst.string _).of_bind fun name name' hname => ?_
  refine (record_relocate hrefs).of_bind fun before before' hbefore => ?_
  subst hname hbefore
  rw [Record.hasField_remark relocation.mark_injective, Record.label_remark]
  dsimp only
  split
  · exact Computations.of_throw_bind _ _ _
  refine (hsources 2).of_bind fun second second' hsecond => ?_
  refine (hsecond.closure _).of_bind fun closure closure' hclosures => ?_
  refine (record_relocate hrefs).of_bind fun record record' hrecord => ?_
  subst hrecord
  have hfield : (((record.remark relocation.mark).field? name).getD .null) =
      ((record.field? name).getD .null).remark relocation.mark := by
    rw [Record.field?_remark relocation.mark_injective]
    cases record.field? name <;> rfl
  rw [hfield]
  refine (agree_settle (Value.ofPlain_relocate _)).of_bind fun value value' hvalues => ?_
  refine (hcallers _ _ _ _ hclosures (List.Forall₂.cons hvalues List.Forall₂.nil)).of_bind
    fun result result' hresults => ?_
  refine labels_relocate.of_bind fun labels labels' hlabels => ?_
  rw [hresults.display hlabels]
  exact onActive_relocate (Work.setField_relocate hrefs _ _)

theorem onPair_relocate (hcallers : relocation.Callers caller caller') (procedure : Procedure)
    (harguments : List.Forall₂ relocation.Arguments arguments arguments')
    (hrefs : relocation.Refs target target') (hsource : relocation.Refs source source') :
    Computations relocation.Worlds Eq (procedure.onPair caller arguments target source)
      (procedure.onPair caller' arguments' target' source') := by
  cases procedure with
  | addExtraData => exact linkPair_relocate _ harguments hrefs hsource false
  | forceAddExtraData => exact linkPair_relocate _ harguments hrefs hsource true
  | setFieldFromOther => exact setFromSource_relocate hcallers _ harguments hrefs hsource
  | _ => exact Computations.of_throw _

/-! ## Groups -/

theorem forall₂_zip {firsts firsts' seconds seconds' : List RecordRef}
    (hfirsts : List.Forall₂ relocation.Refs firsts firsts')
    (hseconds : List.Forall₂ relocation.Refs seconds seconds') :
    List.Forall₂ (fun pair pair' : RecordRef × RecordRef =>
        relocation.Refs pair.1 pair'.1 ∧ relocation.Refs pair.2 pair'.2)
      (firsts.zip seconds) (firsts'.zip seconds') := by
  induction hfirsts generalizing seconds seconds' with
  | nil => exact List.Forall₂.nil
  | cons hfirst _ ih =>
    cases hseconds with
    | nil => exact List.Forall₂.nil
    | cons hsecond hrest => exact List.Forall₂.cons ⟨hfirst, hsecond⟩ (ih hrest)

theorem pairs_relocate {targets targets' sources sources' : Group}
    (htargets : relocation.Groups targets targets')
    (hsources : relocation.Groups sources sources') (pairwise : Bool) :
    Outcomes (List.Forall₂ fun pair pair' =>
        relocation.Refs pair.1 pair'.1 ∧ relocation.Refs pair.2 pair'.2)
      (pairs targets sources pairwise) (pairs targets' sources' pairwise) := by
  have hfirsts := Relocation.forall₂_refs_records htargets
  have hseconds := Relocation.forall₂_refs_records hsources
  have hsizes : targets'.size = targets.size ∧ sources'.size = sources.size := by
    rw [htargets.1, hsources.1, Group.size_relocate, Group.size_relocate]
    exact ⟨rfl, rfl⟩
  unfold pairs
  rw [hsizes.1, hsizes.2]
  split
  · split
    · exact .ok (forall₂_zip hfirsts hseconds)
    · exact .error _
  · exact .ok <| List.rel_flatMap hfirsts fun _ _ hfirst =>
      List.rel_map (fun _ _ hsecond => ⟨hfirst, hsecond⟩) hseconds

theorem headerEntries_relocate {group group' : Group}
    (hgroups : relocation.Groups group group') {mod mod' : Mod}
    (hmods : relocation.Mods mod mod') :
    headerEntries group' mod' = headerEntries group mod := by
  rw [headerEntries, hgroups.1, hmods.1, Mod.name_relocate, Group.distinctMods_relocate,
    headerEntries]

theorem apply_relocate (hcallers : relocation.Callers caller caller') (procedure : Procedure)
    (harguments : List.Forall₂ relocation.Arguments arguments arguments')
    {targets targets' : Group} (htargets : relocation.Groups targets targets')
    (pairwise : Bool) :
    Computations relocation.Worlds Eq (procedure.apply caller arguments targets pairwise)
      (procedure.apply caller' arguments' targets' pairwise) := by
  unfold apply
  refine requireActive_relocate.of_bind fun mod mod' hmods => ?_
  have hfinish : ∀ applied : Nat, Computations relocation.Worlds Eq
      (do
        onActive (Work.addDependencies (headerEntries targets mod))
        note .debug .procedures (procedure.name ++ " applied " ++ integerText applied ++
          " time(s)"))
      (do
        onActive (Work.addDependencies (headerEntries targets' mod'))
        note .debug .procedures (procedure.name ++ " applied " ++ integerText applied ++
          " time(s)")) := by
    intro applied
    rw [headerEntries_relocate htargets hmods]
    exact (onActive_relocate (Work.addDependencies_relocate _)).of_bind fun _ _ _ =>
      note_relocate _ _ _ _
  dsimp only
  split
  · refine (argument_relocate _ harguments 0 Relocation.currents_none).of_bind
      fun value value' hvalues => ?_
    refine (hvalues.group _).of_bind fun source source' hsources => ?_
    refine (agree_settle (pairs_relocate htargets hsources pairwise)).of_bind
      fun paired paired' hpaired => ?_
    refine (Computations.of_forM hpaired fun pair pair' hpair =>
      onPair_relocate hcallers procedure harguments hpair.1 hpair.2).of_bind fun _ _ _ => ?_
    rw [headerEntries_relocate hsources hmods, ← hpaired.length_eq]
    exact (onActive_relocate (Work.addReferences_relocate _)).of_bind fun _ _ _ =>
      (Computations.of_pure rfl).of_bind fun applied applied' heq => by
        subst heq
        exact hfinish applied
  · refine (Computations.of_forM (Relocation.forall₂_refs_records htargets) fun _ _ hrefs =>
      onTarget_relocate hcallers procedure harguments hrefs).of_bind fun _ _ _ => ?_
    have hsize : targets'.size = targets.size := by
      rw [htargets.1, Group.size_relocate]
    rw [hsize]
    exact (Computations.of_pure rfl).of_bind fun applied applied' heq => by
      subst heq
      exact hfinish applied

end Procedure

end Patchwork
