import Patchwork.Evaluation.Calls
import Patchwork.Proofs.Trails.Keeping

/-!
# Calls of built-ins keep to the rules

Functions, predicates and commands keep to the rules if their arguments do and if there are
as many of them as reading accepts: none of the arguments they read is missing.
-/

namespace Patchwork

open Eval

variable {repository : Repository} {rules : Rules}

/-! ## Values that are expected -/

namespace Value

variable {value : Value} {purpose : String}

theorem Obeys.keeps_expectGroup (hvalue : value.Obeys rules)
    (hpurpose : purpose ≠ "left side of ->") :
    (labelled (value.expectGroup · purpose)).Keeps repository rules rules.Admits :=
  keeps_labelled fun labels => (meets_expectGroup labels hpurpose value).mono fun group hgroup => by
    subst hgroup
    exact hvalue

theorem Obeys.keeps_expectArray (hvalue : value.Obeys rules) (purpose : String) :
    (labelled (value.expectArray · purpose)).Keeps repository rules fun items =>
      ∀ item ∈ items, item.Obeys rules :=
  keeps_labelled fun labels => (meets_expectArray labels purpose value).mono fun items hitems => by
    subst hitems
    exact allValuesObey_iff.mp hvalue

theorem Obeys.keeps_expectClosure (hvalue : value.Obeys rules) (purpose : String) :
    (labelled (value.expectClosure · purpose)).Keeps repository rules fun closure =>
      closure.body.Obeys rules :=
  keeps_labelled fun labels =>
    (meets_expectClosure labels purpose value).mono fun closure hclosure => by
      subst hclosure
      exact hvalue

theorem keeps_expectString (value : Value) (purpose : String) :
    (labelled (value.expectString · purpose)).Keeps repository rules fun _ => True :=
  keeps_labelled fun labels => meets_expectString labels purpose value

theorem keeps_expectBoolean (value : Value) (purpose : String) :
    (labelled (value.expectBoolean · purpose)).Keeps repository rules fun _ => True :=
  keeps_labelled fun labels => meets_expectBoolean labels purpose value

theorem keeps_expectInteger (value : Value) (purpose : String) :
    (labelled (value.expectInteger · purpose)).Keeps repository rules fun _ => True :=
  keeps_labelled fun labels => meets_expectInteger labels purpose value

theorem keeps_expectIntegers (value : Value) (purpose : String) :
    (labelled (value.expectIntegers · purpose)).Keeps repository rules fun _ => True :=
  keeps_labelled fun labels => meets_expectIntegers labels purpose value

theorem keeps_toInteger (value : Value) :
    (labelled value.toInteger).Keeps repository rules fun _ => True :=
  keeps_labelled fun labels => meets_toInteger labels value

theorem keeps_toFloat (value : Value) :
    (labelled value.toFloat).Keeps repository rules fun _ => True :=
  keeps_labelled fun labels => meets_toFloat labels value

theorem keeps_toBoolean (value : Value) :
    (labelled value.toBoolean).Keeps repository rules fun _ => True :=
  keeps_labelled fun labels => meets_toBoolean labels value

/-- The text a value is displayed as. -/
theorem keeps_display (value : Value) :
    (do return value.display (← labels) : Eval String).Keeps repository rules fun _ => True :=
  keeps_labels.andThen fun _ => keeps_pure trivial

end Value

theorem keeps_requireRecord (name : String) (record : Option RecordRef) :
    (requireRecord name record).Keeps repository rules fun _ => True := by
  cases record with
  | none => exact keeps_fail trivial
  | some ref => exact keeps_pure trivial

/-! ## Functions -/

namespace Function

theorem keeps_numbers (purpose : String) {value : Value} (hvalue : value.Obeys rules) :
    (numbers purpose value).Keeps repository rules fun _ => True := by
  refine (hvalue.keeps_expectArray purpose).andThen fun items => ?_
  have hnumbers : (items.mapM fun item => labelled item.toFloat).Keeps repository rules
      fun _ => True := (keeps_mapM fun item _ => item.keeps_toFloat).any
  split
  · exact keeps_fail_bind (by trivial) _
  · exact hnumbers

theorem keeps_cloneGroup (group : Group) (count : Int) :
    (cloneGroup group count).Keeps repository rules (Value.Obeys rules) := by
  unfold cloneGroup
  split
  · rename_i member _
    refine keeps_requireActive.andThen fun mod => ?_
    refine (keeps_cloneRecord member.record count).bind fun clones hclones => ?_
    have hadmits : rules.Admits ⟨clones.map (Member.mk mod.name)⟩ := by
      intro ref href
      obtain ⟨own, hown, rfl⟩ := List.mem_map.mp href
      obtain ⟨clone, hclone, rfl⟩ := List.mem_map.mp hown
      exact hclones clone hclone
    exact keeps_pure hadmits
  · exact keeps_fail trivial

variable {arguments : List Argument}
  (harguments : ∀ argument ∈ arguments, KeptArgument repository rules argument)

include harguments

theorem keeps_result (function : Function) (haccepts : function.arity.Accepts arguments.length)
    (record : Option RecordRef) :
    (function.result record arguments).Keeps repository rules (Value.Obeys rules) := by
  have hargument := fun position (hposition : position < function.arity.least) =>
    keeps_argument harguments function.name (Nat.lt_of_lt_of_le hposition haccepts.1) record
  unfold result
  cases function with
  | getField =>
    refine (keeps_requireRecord _ record).andThen fun ref => ?_
    refine (hargument 0 (by decide)).andThen fun value => ?_
    refine (value.keeps_expectString _).andThen fun name => ?_
    refine (keeps_record ref).andThen fun current => ?_
    split
    · exact keeps_fail trivial
    · exact keeps_settle ((Value.meets_ofPlain _).mono fun _ hdata => hdata.obeys)
  | toInt =>
    exact (hargument 0 (by decide)).andThen fun value => value.keeps_toInteger.andThen fun _ =>
      keeps_data trivial
  | toFloat =>
    exact (hargument 0 (by decide)).andThen fun value => value.keeps_toFloat.andThen fun _ =>
      keeps_data trivial
  | min | max =>
    exact (hargument 0 (by decide)).bind fun value hvalue =>
      (keeps_numbers _ hvalue).andThen fun _ => keeps_data (Value.data_ofNumber _)
  | arrIndex =>
    refine (hargument 0 (by decide)).bind fun first hfirst => ?_
    refine (hfirst.keeps_expectArray _).andThen fun items => ?_
    refine (hargument 1 (by decide)).andThen fun second => ?_
    refine (second.keeps_expectInteger _).andThen fun position => ?_
    dsimp only
    split
    · exact keeps_fail_bind (by trivial) _
    split
    · exact keeps_fail trivial
    split
    · exact (Value.keeps_toInteger _).andThen fun _ => keeps_data trivial
    · exact keeps_labels.andThen fun _ => keeps_fail trivial
  | randomFloat => exact keeps_draw Draws.fraction fun _ => trivial
  | randomBetweenInts =>
    refine (hargument 0 (by decide)).andThen fun first => ?_
    refine (first.keeps_expectInteger _).andThen fun low => ?_
    refine (hargument 1 (by decide)).andThen fun second => ?_
    refine (second.keeps_expectInteger _).andThen fun high => ?_
    dsimp only
    split
    · exact keeps_fail_bind (by trivial) _
    split
    · exact keeps_data trivial
    · exact keeps_draw (fun draws => draws.between low high) fun _ => trivial
  | containsExact | containsFolded =>
    refine (hargument 0 (by decide)).andThen fun first => ?_
    refine (first.keeps_expectString _).andThen fun text => ?_
    refine (hargument 1 (by decide)).andThen fun second => ?_
    exact (second.keeps_expectString _).andThen fun part => keeps_data trivial
  | count =>
    exact (hargument 0 (by decide)).bind fun value hvalue =>
      (hvalue.keeps_expectGroup (by decide)).andThen fun _ => keeps_data trivial
  | clone =>
    refine (hargument 0 (by decide)).bind fun first hfirst => ?_
    refine (hfirst.keeps_expectGroup (by decide)).andThen fun group => ?_
    refine (hargument 1 (by decide)).andThen fun second => ?_
    exact (second.keeps_expectInteger _).andThen fun count => keeps_cloneGroup group count

theorem keeps_apply (function : Function) (haccepts : function.arity.Accepts arguments.length)
    (record : Option RecordRef) :
    (function.apply record arguments).Keeps repository rules (Value.Obeys rules) :=
  (keeps_result harguments function haccepts record).bind fun _ hresult => keeps_mark hresult

end Function

/-! ## Predicates -/

namespace Predicate

variable {arguments : List Argument} {argument : Nat → Eval Value}

theorem keeps_linkArguments (hsome : 0 < arguments.length)
    (hargument : ∀ position < arguments.length,
      (argument position).Keeps repository rules (Value.Obeys rules)) :
    (linkArguments arguments argument).Keeps repository rules fun _ => True := by
  refine (hargument 0 hsome).bind fun first hfirst => ?_
  refine (hfirst.keeps_expectGroup (by decide)).andThen fun group => ?_
  split
  · exact keeps_pure trivial
  rename_i hsecond
  refine (hargument 1 (Nat.not_le.mp hsecond)).andThen fun second => ?_
  refine (second.keeps_expectString _).andThen fun category => ?_
  split
  · exact keeps_pure trivial
  rename_i hthird
  refine (hargument 2 (Nat.not_le.mp hthird)).andThen fun third => ?_
  exact (third.keeps_expectIntegers _).andThen fun payload => keeps_pure trivial

theorem keeps_testField (predicate : Predicate) (record : Option RecordRef)
    (hargument : (argument 0).Keeps repository rules (Value.Obeys rules))
    (test : Record → String → Bool) :
    (predicate.testField record argument test).Keeps repository rules fun _ => True := by
  refine (keeps_requireRecord _ record).andThen fun ref => hargument.andThen fun value => ?_
  refine (value.keeps_expectString _).andThen fun name => ?_
  exact (keeps_record ref).andThen fun _ => keeps_pure trivial

theorem keeps_testLinks (predicate : Predicate) (record : Option RecordRef)
    (hsome : 0 < arguments.length)
    (hargument : ∀ position < arguments.length,
      (argument position).Keeps repository rules (Value.Obeys rules))
    (test : Record → List Record → Option String → Option (List Int) → Bool) :
    (predicate.testLinks record arguments argument test).Keeps repository rules
      fun _ => True := by
  refine (keeps_requireRecord _ record).andThen fun ref => ?_
  refine (keeps_linkArguments hsome hargument).andThen fun linked => ?_
  exact keeps_get.andThen fun _ => keeps_pure trivial

theorem keeps_apply (harguments : ∀ argument ∈ arguments, KeptArgument repository rules argument)
    (predicate : Predicate) (haccepts : predicate.arity.Accepts arguments.length)
    (record : Option RecordRef) :
    (predicate.apply record arguments).Keeps repository rules fun _ => True := by
  have hargument := fun position (hposition : position < arguments.length) =>
    keeps_argument harguments predicate.name hposition record
  unfold apply
  cases predicate with
  | always | never => exact keeps_pure trivial
  | isRemoved =>
    refine (keeps_requireRecord _ record).andThen fun ref => ?_
    exact (keeps_record ref).andThen fun _ => keeps_pure trivial
  | isLinkOfAny | linksAny | linksAll =>
    exact keeps_testLinks _ record haccepts.1 hargument _
  | _ => exact keeps_testField _ record (hargument 0 haccepts.1) _

end Predicate

/-! ## Commands -/

namespace Command

variable {arguments : List Argument}
  (harguments : ∀ argument ∈ arguments, KeptArgument repository rules argument)

include harguments

theorem keeps_joinedArguments (record : Option RecordRef) :
    (joinedArguments record arguments).Keeps repository rules fun _ => True := by
  have htext : ∀ argument ∈ arguments, (do
      return (← argument record).display (← labels) : Eval String).Keeps repository rules
        fun _ => True := fun argument hargument =>
    (harguments argument hargument record).andThen Value.keeps_display
  exact (keeps_mapM htext).andThen fun _ => keeps_pure trivial

theorem keeps_apply (command : Command) (haccepts : command.arity.Accepts arguments.length)
    (record : Option RecordRef) :
    (command.apply repository record arguments).Keeps repository rules fun _ => True := by
  have hargument := fun position (hposition : position < command.arity.least) =>
    keeps_argument harguments command.name (Nat.lt_of_lt_of_le hposition haccepts.1) record
  unfold apply
  cases command with
  | print | debug =>
    exact (keeps_joinedArguments harguments record).andThen fun _ => keeps_note ..
  | inspectRecord =>
    refine (hargument 0 (by decide)).bind fun first hfirst => ?_
    refine (hfirst.keeps_expectGroup (by decide)).andThen fun group => ?_
    refine (hargument 1 (by decide)).andThen fun second => keeps_labels.andThen fun labels => ?_
    refine keeps_get.andThen fun world => ?_
    dsimp only
    split
    · exact keeps_fail trivial
    · exact keeps_note ..
  | showRecordEvolution =>
    refine (hargument 0 (by decide)).andThen fun first => keeps_labels.andThen fun labels => ?_
    refine keeps_get.andThen fun world => ?_
    dsimp only
    split
    · exact keeps_note ..
    · exact keeps_forM fun version _ => keeps_note ..
  | stop =>
    exact (keeps_note ..).andThen fun _ => keeps_modify (fun _ => rfl) fun _ => rfl

end Command

end Patchwork
