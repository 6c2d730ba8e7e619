import Patchwork.Proofs.Environments
import Patchwork.Proofs.Expression.LambdaTexts
import Patchwork.Proofs.Likeness.Evaluation

/-!
# Parameters and definitions of one name

Inside a lambda its parameter hides the definition of its name, except in front of an
index, where a name stands for a table or for what it is defined as.  So what a lambda
gives does not depend on the definition of its parameter, as long as the name is that of a
table or never stands in front of an index.
-/

namespace Patchwork

open Eval

/-! ## Names in front of indexes -/

mutual

/-- The names in front of indexes in a value. -/
def Value.indexed : Value → List String
  | .array items => indexedInItems items
  | .closure _ _ body _ => body.indexed
  | _ => []

/-- The names in front of indexes in an expression. -/
def Node.indexed : Node → List String
  | .literal value => value.indexed
  | .parameter _ => []
  | .unary _ operand => operand.indexed
  | .binary _ left right => left.indexed ++ right.indexed
  | .call _ arguments => indexedInNodes arguments
  | .test _ arguments => indexedInNodes arguments
  | .array elements => indexedInNodes elements
  | .tableName name => [name]
  | .index target position => target.indexed ++ position.indexed
  | .group _ => []
  | .procedure _ arguments _ => indexedInNodes arguments
  | .pipe left _ arguments _ => left.indexed ++ indexedInNodes arguments
  | .lambda _ body => body.indexed
  | .command _ arguments => indexedInNodes arguments

/-- The names in front of indexes in the elements of an array. -/
def indexedInItems : List Value → List String
  | [] => []
  | item :: rest => item.indexed ++ indexedInItems rest

/-- The names in front of indexes in the expressions of a list. -/
def indexedInNodes : List Node → List String
  | [] => []
  | node :: rest => node.indexed ++ indexedInNodes rest

end

/-! ## Equality below known names -/

section Known

variable (known : String → Prop)

/-- Equal values in which all names in front of indexes are known. -/
def SameValue (value value' : Value) : Prop :=
  value = value' ∧ ∀ name ∈ value.indexed, known name

/-- Equal expressions in which all names in front of indexes are known. -/
def SameNode (node node' : Node) : Prop :=
  node = node' ∧ ∀ name ∈ node.indexed, known name

variable {known}

theorem forall₂_sameValue_iff {items items' : List Value} :
    List.Forall₂ (SameValue known) items items' ↔
      items = items' ∧ ∀ name ∈ indexedInItems items, known name := by
  constructor
  · intro hitems
    induction hitems with
    | nil => exact ⟨rfl, nofun⟩
    | cons hitem _ ih =>
      exact ⟨congrArg₂ List.cons hitem.1 ih.1, List.forall_mem_append.mpr ⟨hitem.2, ih.2⟩⟩
  · rintro ⟨rfl, hknown⟩
    induction items with
    | nil => exact List.Forall₂.nil
    | cons item rest ih =>
      obtain ⟨hitem, hrest⟩ := List.forall_mem_append.mp hknown
      exact List.Forall₂.cons ⟨rfl, hitem⟩ (ih hrest)

theorem forall₂_sameNode {nodes : List Node}
    (hnodes : ∀ name ∈ indexedInNodes nodes, known name) :
    List.Forall₂ (SameNode known) nodes nodes := by
  induction nodes with
  | nil => exact List.Forall₂.nil
  | cons node rest ih =>
    obtain ⟨hnode, hrest⟩ := List.forall_mem_append.mp hnodes
    exact List.Forall₂.cons ⟨rfl, hnode⟩ (ih hrest)

theorem sameShape_of_sameNode {node node' : Node} (hsame : SameNode known node node') :
    Node.SameShape (SameValue known) (SameNode known) (SameNode known) node node' := by
  obtain ⟨rfl, hknown⟩ := hsame
  cases node with
  | literal value => exact .literal ⟨rfl, hknown⟩
  | parameter name => exact .parameter name
  | unary operator operand => exact .unary operator ⟨rfl, hknown⟩
  | binary operator left right =>
    obtain ⟨hleft, hright⟩ := List.forall_mem_append.mp hknown
    exact .binary operator ⟨rfl, hleft⟩ ⟨rfl, hright⟩
  | call function arguments => exact .call function (forall₂_sameNode hknown)
  | test predicate arguments => exact .test predicate (forall₂_sameNode hknown)
  | array elements => exact .array (forall₂_sameNode hknown)
  | tableName name => exact .tableName name
  | index target position =>
    obtain ⟨htarget, hposition⟩ := List.forall_mem_append.mp hknown
    exact .index ⟨rfl, htarget⟩ ⟨rfl, hposition⟩
  | group group => exact .group group
  | procedure procedure arguments pairwise => exact .procedure procedure arguments _ pairwise
  | pipe left procedure arguments pairwise =>
    obtain ⟨hleft, harguments⟩ := List.forall_mem_append.mp hknown
    exact .pipe procedure pairwise ⟨rfl, hleft⟩ (forall₂_sameNode harguments)
  | lambda parameter body => exact .lambda parameter ⟨rfl, hknown⟩
  | command command arguments => exact .command command (forall₂_sameNode hknown)

theorem sameValue_iff_sameShape {value value' : Value} :
    SameValue known value value' ↔
      Value.SameShape (SameValue known) (SameNode known) value value' := by
  constructor
  · rintro ⟨rfl, hknown⟩
    cases value with
    | array items => exact .array (forall₂_sameValue_iff.mpr ⟨rfl, hknown⟩)
    | closure identity parameter body record =>
      exact .closure identity parameter record ⟨rfl, hknown⟩
    | _ => exact .atom trivial
  · intro hshape
    cases hshape with
    | atom hatom =>
      refine ⟨rfl, ?_⟩
      cases value with
      | array | closure => exact hatom.elim
      | _ => exact nofun
    | array hitems =>
      obtain ⟨rfl, hknown⟩ := forall₂_sameValue_iff.mp hitems
      exact ⟨rfl, hknown⟩
    | closure identity parameter record hbody =>
      obtain ⟨rfl, hknown⟩ := hbody
      exact ⟨rfl, hknown⟩

variable (known)

/-- Equality of values and expressions in which all names in front of indexes are
known. -/
def Likeness.sameBelow : Likeness where
  Values := SameValue known
  Nodes := SameNode known
  Bodies := SameNode known
  nodes_of_bodies := id
  values_iff := sameValue_iff_sameShape
  nodes_shape hsame := .inl (sameShape_of_sameNode hsame)
  display hsame labels := congrArg (Value.display labels) hsame.1.symm

end Known

/-! ## Shadowing -/

/-- A name stands nowhere in front of an index: not in an expression and not in an
argument, nor in what another name is defined as or in a table entry. -/
structure Environment.NeverIndexed (environment : Environment) (name : String) (body : Node)
    (argument : Value) : Prop where
  body : name ∉ body.indexed
  argument : name ∉ argument.indexed
  definitions : ∀ other value, other ≠ name → environment.lookup? other = some value →
    name ∉ value.indexed
  entries : ∀ table key node, environment.tableEntry table key = .ok node → name ∉ node.indexed

variable {first second : Environment} {labels : Labels} {text parameter : String} {body : Node}

/-- A name is looked up alike in front of an index if it is another name or that of a
table. -/
def Environment.LooksUpAlike (environment : Environment) (parameter name : String) : Prop :=
  name = parameter → (environment.tables.get? parameter).isSome

theorem tableOrDefinition_of_looksUpAlike (htables : second.tables = first.tables)
    (hdefinitions : ∀ name ≠ parameter, second.lookup? name = first.lookup? name) {name : String}
    (hname : first.LooksUpAlike parameter name) :
    second.tableOrDefinition name = first.tableOrDefinition name := by
  unfold Environment.tableOrDefinition
  rw [htables]
  by_cases hparameter : name = parameter
  · obtain ⟨entries, hentries⟩ := Option.isSome_iff_exists.mp (hname hparameter)
    rw [hparameter, hentries]
  · rw [hdefinitions name hparameter]

variable {argument : Value}

section

variable (hindexed : (first.tables.get? parameter).isSome ∨
  first.NeverIndexed parameter body argument)

include hindexed

theorem looksUpAlike_of_indexed {names : List String}
    (hnames : first.NeverIndexed parameter body argument → parameter ∉ names) :
    ∀ name ∈ names, first.LooksUpAlike parameter name := by
  rintro name hname rfl
  exact hindexed.resolve_right fun hnever => hnames hnever hname

theorem looksUpAlike_tableOrDefinition {name : String}
    (hname : first.LooksUpAlike parameter name) :
    ∀ other ∈ (first.tableOrDefinition name).indexed, first.LooksUpAlike parameter other := by
  unfold Environment.tableOrDefinition
  split
  · rename_i value htable hlookup
    refine looksUpAlike_of_indexed hindexed fun hnever =>
      hnever.definitions name value (fun hparameter => ?_) hlookup
    have hsome := hname hparameter
    rw [← hparameter, htable] at hsome
    cases hsome
  · exact nofun

theorem settings_of_shadowed (htables : second.tables = first.tables)
    (hdefinitions : ∀ name ≠ parameter, second.lookup? name = first.lookup? name)
    (repository : Repository) :
    (Likeness.sameBelow (first.LooksUpAlike parameter)).Settings ⟨first, repository⟩
      ⟨second, repository⟩ where
  repository := rfl
  named name hnode := by
    have hname : first.LooksUpAlike parameter name := hnode.2 name (List.mem_singleton_self name)
    exact ⟨(tableOrDefinition_of_looksUpAlike htables hdefinitions hname).symm,
      looksUpAlike_tableOrDefinition hindexed hname⟩
  entry table key := by
    have hentry : second.tableEntry table key = first.tableEntry table key := by
      unfold Environment.tableEntry
      rw [htables]
    dsimp only
    rw [hentry]
    cases hfound : first.tableEntry table key with
    | error fault => exact .none
    | ok node =>
      exact .some ⟨rfl, looksUpAlike_of_indexed hindexed fun hnever =>
        hnever.entries table key node hfound⟩

end

/-- Where a parameter is defined differently, or not at all, a lambda is read alike and
calling it gives the same, unless the name is that of no table and stands in front of an
index. -/
theorem call_lambda_of_shadowed (htables : second.tables = first.tables)
    (hdefinitions : ∀ name ≠ parameter, second.lookup? name = first.lookup? name)
    (hread : Node.ofText ⟨first, labels, []⟩ text = .ok (.lambda parameter body))
    (hindexed : (first.tables.get? parameter).isSome ∨
      first.NeverIndexed parameter body argument) :
    Node.ofText ⟨second, labels, []⟩ text = .ok (.lambda parameter body) ∧
      ∀ repository identity record,
        Alike Eq
          (Closure.call ⟨first, repository⟩ ⟨identity, parameter, body, record⟩ [argument])
          (Closure.call ⟨second, repository⟩ ⟨identity, parameter, body, record⟩ [argument]) := by
  have hagree : Names.AgreeBut parameter ⟨first, labels, []⟩ ⟨second, labels, []⟩ :=
    ⟨rfl, hdefinitions⟩
  refine ⟨Node.ofText_lambda_of_agreeBut hagree hread, fun repository identity record => ?_⟩
  have hbody : SameNode (first.LooksUpAlike parameter) body body :=
    ⟨rfl, looksUpAlike_of_indexed hindexed (·.body)⟩
  have hargument : SameValue (first.LooksUpAlike parameter) argument argument :=
    ⟨rfl, looksUpAlike_of_indexed hindexed (·.argument)⟩
  have hcall := Likeness.call_alike
    (settings_of_shadowed hindexed htables hdefinitions repository) _ _ [argument] [argument]
    (.intro identity parameter record hbody) (List.Forall₂.cons hargument List.Forall₂.nil)
  exact hcall.mono fun _ _ hsame => hsame.1

/-- The parameter of a lambda that has been read and the names in front of indexes in its
body. -/
def lambdaRead? : Except Fault Node → Option (String × List String)
  | .ok (.lambda parameter body) => some (parameter, body.indexed)
  | _ => none

theorem exists_of_lambdaRead? {outcome : Except Fault Node} {names : List String}
    (hread : lambdaRead? outcome = some (parameter, names)) :
    ∃ body, outcome = .ok (.lambda parameter body) ∧ body.indexed = names := by
  unfold lambdaRead? at hread
  split at hread <;> cases hread
  exact ⟨_, rfl, rfl⟩

/-- In `x => x + 1` the parameter is added to, whether `x` is defined or not. -/
theorem call_lambda_of_shadowed_increment :
    ∃ body, Node.ofText ⟨{}, fun _ => "", []⟩ "x => x + 1" = .ok (.lambda "x" body) ∧
      ∀ repository identity record,
        Alike Eq (Closure.call ⟨{}, repository⟩ ⟨identity, "x", body, record⟩ [.integer 2])
          (Closure.call ⟨({} : Environment).define "x" (.integer 5), repository⟩
            ⟨identity, "x", body, record⟩ [.integer 2]) := by
  have hdefinitions : ∀ name ≠ "x",
      (({} : Environment).define "x" (.integer 5)).lookup? name =
        ({} : Environment).lookup? name := by
    intro name hname
    rw [Environment.lookup?_define, if_neg hname.symm]
  obtain ⟨body, hread, hnames⟩ := exists_of_lambdaRead? (by decide +kernel :
    lambdaRead? (Node.ofText ⟨{}, fun _ => "", []⟩ "x => x + 1") = some ("x", []))
  have hnever : ({} : Environment).NeverIndexed "x" body (.integer 2) := by
    constructor
    case body =>
      rw [hnames]
      exact List.not_mem_nil
    case argument => exact List.not_mem_nil
    case definitions => exact fun other value _ hlookup => nomatch hlookup
    case entries => exact fun table key node hentry => nomatch hentry
  have htables := Environment.tables_define {} "x" (.integer 5)
  exact ⟨body, hread,
    (call_lambda_of_shadowed htables hdefinitions hread (.inr hnever)).2⟩

/-! Nothing is said about a parameter in front of an index where it is no table. -/

/-- What a lambda that is read in an environment gives there for an argument, in writing. -/
def shownCall (environment : Environment) (text : String) (argument : Value) : Option String :=
  match Node.ofText ⟨environment, fun _ => "", []⟩ text with
  | .ok (.lambda parameter body) =>
    ((Closure.call ⟨environment, {}⟩ ⟨1, parameter, body, none⟩ [argument]).run {}).1.toOption.map
      (Value.display fun _ => "")
  | _ => none

/-- For every argument, `x => x[0]` would give the first element of what `x` is defined as; it
fails where `x` is not defined. -/
theorem call_lambda_indexed_parameter :
    lambdaRead? (Node.ofText ⟨{}, fun _ => "", []⟩ "x => x[0]") = some ("x", ["x"]) ∧
      shownCall {} "x => x[0]" (.array [.integer 7]) = none ∧
      shownCall (({} : Environment).define "x" (.array [.integer 1, .integer 2])) "x => x[0]"
        (.array [.integer 7]) = some "1" := by
  decide +kernel

end Patchwork
