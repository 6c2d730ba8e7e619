import Patchwork.Proofs.Results
import Patchwork.Statement

/-!
# What reading makes

Whatever property of expressions passes from the parts of an expression to the
expression that reading makes of them holds of every expression that is read, and so of
the expression in every statement.

In a well-formed expression every parameter stands in the body of a lambda that binds it,
every call has an argument count that what it calls accepts, only procedures with a source
group are pairwise, and what stands on the left of an arrow produces a group.  Reading
makes no other expressions.
-/

namespace Patchwork

/-! ## What readers give -/

namespace Reader

variable {Result Other : Type}

/-- Whatever a reader gives has a property. -/
def Gives (reader : Reader Result) (holds : Result → Prop) : Prop :=
  ∀ cursor result after, StateT.run reader cursor = .ok (result, after) → holds result

variable {reader : Reader Result} {holds : Result → Prop} {holdsNext : Other → Prop}

theorem gives_pure {result : Result} (hresult : holds result) :
    (pure result : Reader Result).Gives holds := by
  intro cursor given after hrun
  cases hrun
  exact hresult

theorem gives_throw (fault : Fault) : (throw fault : Reader Result).Gives holds := by
  intro cursor given after hrun
  cases hrun

theorem gives_any (reader : Reader Result) : reader.Gives fun _ => True :=
  fun _ _ _ _ => trivial

theorem Gives.bind {next : Result → Reader Other} (hfirst : reader.Gives holds)
    (hnext : ∀ result, holds result → (next result).Gives holdsNext) :
    Gives (reader >>= next) holdsNext := by
  intro cursor result after hrun
  rw [StateT.run_bind] at hrun
  cases hreader : StateT.run reader cursor with
  | error fault =>
    rw [hreader] at hrun
    cases hrun
  | ok pair =>
    rw [hreader] at hrun
    exact hnext pair.1 (hfirst cursor pair.1 pair.2 hreader) pair.2 result after hrun

theorem gives_after {next : Result → Reader Other} (reader : Reader Result)
    (hnext : ∀ result, (next result).Gives holdsNext) : Gives (reader >>= next) holdsNext :=
  (gives_any reader).bind fun result _ => hnext result

theorem holds_of_run (hreader : reader.Gives holds) {text : String} {result : Result}
    (hrun : reader.run text = .ok result) : holds result := by
  unfold Reader.run at hrun
  cases hread : (StateT.run (do let _ ← current; reader)
    ⟨(Scan.ofText text).tokens, (Scan.ofText text).fault?⟩) with
  | error fault =>
    simp only [hread] at hrun
    cases hrun
  | ok pair =>
    simp only [hread] at hrun
    cases hrun
    exact gives_after current (fun _ => hreader) _ pair.1 pair.2 hread

end Reader

open Reader

/-! ## Properties that reading hands on -/

/-- A literal as it is written: a number, a text or a truth value. -/
inductive Value.Written : Value → Prop
  | integer (number : Int) : Written (.integer number)
  | float (number : Binary64) : Written (.float number)
  | string (text : String) : Written (.string text)
  | boolean (flag : Bool) : Written (.boolean flag)

/-- A property of expressions within the parameters of the enclosing lambdas that holds of
what reading makes of parts with the property, and of what is defined. -/
structure ReadingClosed (environment : Environment) (holds : List String → Node → Prop) :
    Prop where
  literal : ∀ {scope value}, Value.Written value → holds scope (.literal value)
  definition : ∀ {scope name value}, environment.lookup? name = some value →
    holds scope (.literal value)
  group : ∀ {scope name group}, environment.lookup? name = some (.group group) →
    holds scope (.group group)
  parameter : ∀ {scope name}, name ∈ scope → holds scope (.parameter name)
  tableName : ∀ {scope} name, holds scope (.tableName name)
  unary : ∀ {scope operand} operator, holds scope operand → holds scope (.unary operator operand)
  binary : ∀ {scope left right} operator, holds scope left → holds scope right →
    holds scope (.binary operator left right)
  index : ∀ {scope target position}, holds scope target → holds scope position →
    holds scope (.index target position)
  array : ∀ {scope elements}, (∀ element ∈ elements, holds scope element) →
    holds scope (.array elements)
  lambda : ∀ {scope body} name, holds (scope ++ [name]) body → holds scope (.lambda name body)
  call : ∀ {scope} {function : Function} {arguments}, function.arity.Accepts arguments.length →
    (∀ argument ∈ arguments, holds scope argument) → holds scope (.call function arguments)
  test : ∀ {scope} {predicate : Predicate} {arguments},
    predicate.arity.Accepts arguments.length →
    (∀ argument ∈ arguments, holds scope argument) → holds scope (.test predicate arguments)
  procedure : ∀ {scope} {procedure : Procedure} {arguments},
    procedure.arity.Accepts arguments.length →
    (∀ argument ∈ arguments, holds scope argument) →
    holds scope (.procedure procedure arguments false)
  pairwise : ∀ {scope} {procedure : Procedure} {arguments marked}, procedure.hasSource = true →
    holds scope (.procedure procedure arguments marked) →
    holds scope (.procedure procedure arguments true)
  pipe : ∀ {scope left procedure arguments pairwise}, left.producesGroup = true →
    holds scope left → holds scope (.procedure procedure arguments pairwise) →
    holds scope (.pipe left procedure arguments pairwise)
  command : ∀ {scope} {command : Command} {arguments}, command.arity.Accepts arguments.length →
    (∀ argument ∈ arguments, holds scope argument) → holds scope (.command command arguments)

section Making

variable {names : Names} {holds : List String → Node → Prop}
  (hclosed : ReadingClosed names.environment holds) {left right : Node} {arguments : List Node}

include hclosed

theorem gives_makePipe {scope : List String} (token : Token) (hleft : holds scope left)
    (hright : holds scope right) : (makePipe names token left right).Gives (holds scope) := by
  unfold makePipe
  split
  · split
    · rename_i hgroup
      exact gives_pure (hclosed.pipe hgroup hleft hright)
    · exact gives_throw _
  · exact gives_throw _

theorem gives_makeJoined {scope : List String} (token : Token) (operator : Connective)
    (hleft : holds scope left) (hright : holds scope right) :
    (makeJoined names token operator left right).Gives (holds scope) := by
  cases operator with
  | arrow => exact gives_makePipe hclosed token hleft hright
  | operator between => exact gives_pure (hclosed.binary between hleft hright)

theorem gives_readName (token : Token) : (readName names token).Gives (holds names.parameters) := by
  unfold readName
  split
  · rename_i hparameter
    exact gives_pure (hclosed.parameter (List.contains_iff_mem.mp hparameter))
  · split
    · exact gives_throw _
    · rename_i hlookup
      exact gives_pure (hclosed.group hlookup)
    · rename_i hlookup
      exact gives_pure (hclosed.definition hlookup)

theorem gives_makeCall {scope : List String} (token : Token) (callee : Callee)
    (harguments : ∀ argument ∈ arguments, holds scope argument) :
    (makeCall token callee arguments).Gives (holds scope) := by
  unfold makeCall
  split
  · exact gives_throw _
  · rename_i hproblem
    have haccepts := Arity.problem?_eq_none_iff.mp hproblem
    cases callee with
    | predicate called => exact gives_pure (hclosed.test haccepts harguments)
    | procedure called => exact gives_pure (hclosed.procedure haccepts harguments)
    | function called => exact gives_pure (hclosed.call haccepts harguments)

theorem gives_makePairwise {scope : List String} (token : Token)
    (harguments : ∀ argument ∈ arguments, holds scope argument) :
    (makePairwise token arguments).Gives (holds scope) := by
  unfold makePairwise
  split
  · split
    · rename_i hsource
      exact gives_pure (hclosed.pairwise hsource (harguments _ (List.mem_singleton_self _)))
    · exact gives_throw _
  · exact gives_throw _

end Making

/-! ## Reading with a budget -/

/-- What reading with a budget gives has a property within the parameters it is read with. -/
structure ReadsClosed (environment : Environment) (holds : List String → Node → Prop)
    (budget : Nat) : Prop where
  operation : ∀ names : Names, names.environment = environment → ∀ level,
    (readOperation budget names level).Gives (holds names.parameters)
  operations : ∀ names : Names, names.environment = environment → ∀ level left,
    holds names.parameters left →
    (readOperations budget names level left).Gives (holds names.parameters)
  operand : ∀ names : Names, names.environment = environment →
    (readOperand budget names).Gives (holds names.parameters)
  indexes : ∀ names : Names, names.environment = environment → ∀ target,
    holds names.parameters target →
    (readIndexes budget names target).Gives (holds names.parameters)
  primary : ∀ names : Names, names.environment = environment →
    (readPrimary budget names).Gives (holds names.parameters)
  identifier : ∀ names : Names, names.environment = environment →
    (readIdentifier budget names).Gives (holds names.parameters)
  list : ∀ names : Names, names.environment = environment → ∀ closing,
    (readList budget names closing).Gives fun nodes => ∀ node ∈ nodes, holds names.parameters node
  more : ∀ names : Names, names.environment = environment →
    (readMore budget names).Gives fun nodes => ∀ node ∈ nodes, holds names.parameters node
  arguments : ∀ names : Names, names.environment = environment →
    (readArguments budget names).Gives fun nodes => ∀ node ∈ nodes, holds names.parameters node
  call : ∀ names : Names, names.environment = environment → ∀ token,
    (readCall budget names token).Gives (holds names.parameters)

section Steps

variable {names : Names} {holds : List String → Node → Prop} {budget : Nat}
  (hclosed : ReadingClosed names.environment holds)
  (hreads : ReadsClosed names.environment holds budget)

include hreads

theorem gives_readOperation (level : Nat) :
    (readOperation (budget + 1) names level).Gives (holds names.parameters) :=
  (hreads.operand names rfl).bind fun left hleft => hreads.operations names rfl level left hleft

theorem gives_readList (closing : TokenKind) :
    (readList (budget + 1) names closing).Gives
      fun nodes => ∀ node ∈ nodes, holds names.parameters node := by
  refine gives_after (at? closing) fun here => ?_
  split
  · exact gives_pure fun _ hnode => absurd hnode List.not_mem_nil
  · refine (hreads.operation names rfl 0).bind fun first hfirst => ?_
    exact (hreads.more names rfl).bind fun rest hrest =>
      gives_pure (List.forall_mem_cons.mpr ⟨hfirst, hrest⟩)

theorem gives_readMore :
    (readMore (budget + 1) names).Gives fun nodes =>
      ∀ node ∈ nodes, holds names.parameters node := by
  refine gives_after (at? .comma) fun here => ?_
  split
  · refine gives_after advance fun _ => ?_
    refine (hreads.operation names rfl 0).bind fun first hfirst => ?_
    exact (hreads.more names rfl).bind fun rest hrest =>
      gives_pure (List.forall_mem_cons.mpr ⟨hfirst, hrest⟩)
  · exact gives_pure fun _ hnode => absurd hnode List.not_mem_nil

theorem gives_readArguments :
    (readArguments (budget + 1) names).Gives
      fun nodes => ∀ node ∈ nodes, holds names.parameters node := by
  refine gives_after (expect .leftParen .noArguments) fun _ => ?_
  refine (hreads.list names rfl .rightParen).bind fun _ harguments => ?_
  exact gives_after (expect .rightParen .openArguments) fun _ => gives_pure harguments

include hclosed

theorem gives_readOperations (level : Nat) {left : Node} (hleft : holds names.parameters left) :
    (readOperations (budget + 1) names level left).Gives (holds names.parameters) := by
  refine gives_after current fun token => ?_
  split
  · exact gives_pure hleft
  · split
    · exact gives_pure hleft
    · refine gives_after advance fun _ => ?_
      refine (hreads.operation names rfl _).bind fun right hright => ?_
      refine (gives_makeJoined hclosed token _ hleft hright).bind fun joined hjoined => ?_
      exact hreads.operations names rfl level joined hjoined

theorem gives_readOperand :
    (readOperand (budget + 1) names).Gives (holds names.parameters) := by
  refine gives_after current fun token => ?_
  split
  · refine gives_after advance fun _ => ?_
    exact (hreads.operation names rfl _).bind fun _ hoperand =>
      gives_pure (hclosed.unary _ hoperand)
  · exact (hreads.primary names rfl).bind fun primary hprimary =>
      hreads.indexes names rfl primary hprimary

theorem gives_readIndexes {target : Node} (htarget : holds names.parameters target) :
    (readIndexes (budget + 1) names target).Gives (holds names.parameters) := by
  refine gives_after (at? .leftBracket) fun here => ?_
  split
  · refine gives_after advance fun _ => ?_
    refine (hreads.operation names rfl 0).bind fun _ hposition => ?_
    refine gives_after (expect .rightBracket .openIndex) fun _ => ?_
    exact hreads.indexes names rfl _ (hclosed.index htarget hposition)
  · exact gives_pure htarget

theorem gives_readPrimary :
    (readPrimary (budget + 1) names).Gives (holds names.parameters) := by
  refine gives_after current fun token => ?_
  split
  · exact gives_after advance fun _ => gives_pure (hclosed.literal (.integer _))
  · exact gives_after advance fun _ => gives_pure (hclosed.literal (.float _))
  · exact gives_after advance fun _ => gives_pure (hclosed.literal (.string _))
  · refine gives_after next fun following => gives_after advance fun _ => ?_
    split
    · exact hreads.call names rfl token
    · exact gives_pure (hclosed.literal (.boolean _))
  · exact hreads.identifier names rfl
  · refine gives_after advance fun _ => ?_
    refine (hreads.operation names rfl 0).bind fun _ hinner => ?_
    exact gives_after (expect .rightParen .openParen) fun _ => gives_pure hinner
  · refine gives_after advance fun _ => ?_
    refine (hreads.list names rfl .rightBracket).bind fun _ helements => ?_
    exact gives_after (expect .rightBracket .openArray) fun _ =>
      gives_pure (hclosed.array helements)
  · exact gives_throw _
  · exact gives_throw _

theorem gives_readIdentifier :
    (readIdentifier (budget + 1) names).Gives (holds names.parameters) := by
  refine gives_after next fun following => gives_after advance fun token => ?_
  split
  · refine gives_after advance fun _ => ?_
    have hbody := hreads.operation
      { names with parameters := names.parameters ++ [token.text] } rfl bodyLevel
    exact hbody.bind fun _ hbody => gives_pure (hclosed.lambda _ hbody)
  split
  · exact gives_pure (hclosed.tableName _)
  split
  · exact hreads.call names rfl token
  · exact gives_readName hclosed token

theorem gives_readCall (token : Token) :
    (readCall (budget + 1) names token).Gives (holds names.parameters) := by
  unfold readCall
  split
  · exact (hreads.arguments names rfl).bind fun _ harguments =>
      gives_makePairwise hclosed token harguments
  · split
    · exact gives_throw _
    · exact (hreads.arguments names rfl).bind fun _ harguments =>
        gives_makeCall hclosed token _ harguments

end Steps

theorem readsClosed {environment : Environment} {holds : List String → Node → Prop}
    (hclosed : ReadingClosed environment holds) (budget : Nat) :
    ReadsClosed environment holds budget := by
  induction budget with
  | zero =>
    exact {
      operation := fun _ _ _ => gives_throw _
      operations := fun _ _ _ _ _ => gives_throw _
      operand := fun _ _ => gives_throw _
      indexes := fun _ _ _ _ => gives_throw _
      primary := fun _ _ => gives_throw _
      identifier := fun _ _ => gives_throw _
      list := fun _ _ _ => gives_throw _
      more := fun _ _ => gives_throw _
      arguments := fun _ _ => gives_throw _
      call := fun _ _ _ => gives_throw _ }
  | succ budget ih =>
    constructor <;> rintro names rfl
    case operation => exact gives_readOperation ih
    case operations => exact fun level _ hleft => gives_readOperations hclosed ih level hleft
    case operand => exact gives_readOperand hclosed ih
    case indexes => exact fun _ htarget => gives_readIndexes hclosed ih htarget
    case primary => exact gives_readPrimary hclosed ih
    case identifier => exact gives_readIdentifier hclosed ih
    case list => exact gives_readList ih
    case more => exact gives_readMore ih
    case arguments => exact gives_readArguments ih
    case call => exact gives_readCall hclosed ih

/-! ## Texts and lines -/

/-- The expression of a statement, or its condition. -/
def Statement.node : Statement → Node
  | .define _ expression => expression
  | .query _ found => found.condition
  | .extract _ _ condition => condition
  | .invoke expression => expression

section Texts

variable {names : Names} {holds : List String → Node → Prop}
  (hclosed : ReadingClosed names.environment holds) {text line : String} {node : Node}

include hclosed

/-- A property that reading hands on holds of an expression that is read. -/
theorem Node.holds_ofText (hread : Node.ofText names text = .ok node) :
    holds names.parameters node := by
  have hreader : (do
      let node ← readOperation (← budgetHere) names 0
      expectFinish
      return node : Reader Node).Gives (holds names.parameters) := by
    refine gives_after budgetHere fun budget => ?_
    refine ((readsClosed hclosed budget).operation names rfl 0).bind fun node hnode => ?_
    exact gives_after expectFinish fun _ => gives_pure hnode
  exact holds_of_run hreader hread

theorem Node.holds_ofCommandText (hread : Node.ofCommandText names text = .ok node) :
    holds names.parameters node := by
  refine @holds_of_run Node _ (holds names.parameters) ?_ text node hread
  refine gives_after _ fun _ => gives_after _ fun token => ?_
  split
  · exact gives_throw _
  · refine gives_after budgetHere fun budget => ?_
    refine ((readsClosed hclosed budget).arguments names rfl).bind fun arguments harguments => ?_
    split
    · exact gives_throw _
    · rename_i hproblem
      have haccepts := Arity.problem?_eq_none_iff.mp hproblem
      exact gives_after expectFinish fun _ => gives_pure (hclosed.command haccepts harguments)

namespace Statement

variable {statement : Statement}

theorem holds_readQuery {query : GroupQuery} (hread : readQuery names text = .ok (some query)) :
    holds names.parameters query.condition := by
  unfold readQuery at hread
  split at hread
  · cases hread
  · split at hread
    · cases hread
    · obtain ⟨condition, hcondition, hquery⟩ := exists_of_bind_eq_ok hread
      cases hquery
      exact Node.holds_ofText hclosed hcondition

theorem holds_readDefinition (hread : readDefinition names line = .ok statement) :
    holds names.parameters statement.node := by
  unfold readDefinition at hread
  generalize sides definitionOperator line = parts at hread
  obtain ⟨left, right⟩ := parts
  dsimp only at hread
  obtain ⟨target, -, hread⟩ := exists_of_bind_eq_ok hread
  split at hread
  · cases hread
  · obtain ⟨query, hquery, hread⟩ := exists_of_bind_eq_ok hread
    cases query with
    | some found =>
      cases hread
      exact holds_readQuery hclosed hquery
    | none =>
      obtain ⟨expression, hexpression, hdefine⟩ := exists_of_bind_eq_ok hread
      cases hdefine
      exact Node.holds_ofText hclosed hexpression

theorem holds_readExtraction (hread : readExtraction names line = .ok statement) :
    holds names.parameters statement.node := by
  unfold readExtraction at hread
  generalize sides extractionOperator line = parts at hread
  obtain ⟨left, right⟩ := parts
  dsimp only at hread
  obtain ⟨target, -, hread⟩ := exists_of_bind_eq_ok hread
  split at hread
  · cases hread
  · obtain ⟨condition, hcondition, hextract⟩ := exists_of_bind_eq_ok hread
    cases hextract
    exact Node.holds_ofText hclosed hcondition

theorem holds_readPipe (hread : readPipe names line = .ok statement) :
    holds names.parameters statement.node := by
  unfold readPipe at hread
  obtain ⟨node, hnode, hread⟩ := exists_of_bind_eq_ok hread
  split at hread
  · cases hread
    exact Node.holds_ofText hclosed hnode
  · cases hread

/-- A property that reading hands on holds of the expression of a line that is read. -/
theorem holds_ofLine (hread : ofLine names line = .ok statement) :
    holds names.parameters statement.node := by
  unfold ofLine at hread
  obtain ⟨kind, -, hread⟩ := exists_of_bind_eq_ok hread
  cases kind with
  | definition => exact holds_readDefinition hclosed hread
  | extraction => exact holds_readExtraction hclosed hread
  | command =>
    obtain ⟨expression, hexpression, hinvoke⟩ := exists_of_bind_eq_ok hread
    cases hinvoke
    exact Node.holds_ofCommandText hclosed hexpression
  | procedure => exact holds_readPipe hclosed hread

end Statement

end Texts

/-! ## Well-formed expressions -/

mutual

/-- An expression that is well formed within the parameters of the enclosing lambdas. -/
def Node.WellFormed (scope : List String) : Node → Prop
  | .literal _ => True
  | .parameter name => name ∈ scope
  | .unary _ operand => operand.WellFormed scope
  | .binary _ left right => left.WellFormed scope ∧ right.WellFormed scope
  | .call function arguments =>
    function.arity.Accepts arguments.length ∧ AllWellFormed scope arguments
  | .test predicate arguments =>
    predicate.arity.Accepts arguments.length ∧ AllWellFormed scope arguments
  | .array elements => AllWellFormed scope elements
  | .tableName _ => True
  | .index target position => target.WellFormed scope ∧ position.WellFormed scope
  | .group _ => True
  | .procedure procedure arguments pairwise =>
    procedure.arity.Accepts arguments.length ∧ (pairwise = true → procedure.hasSource = true) ∧
      AllWellFormed scope arguments
  | .pipe left procedure arguments pairwise =>
    left.producesGroup = true ∧ left.WellFormed scope ∧
      procedure.arity.Accepts arguments.length ∧ (pairwise = true → procedure.hasSource = true) ∧
      AllWellFormed scope arguments
  | .lambda name body => body.WellFormed (scope ++ [name])
  | .command command arguments =>
    command.arity.Accepts arguments.length ∧ AllWellFormed scope arguments

/-- Expressions that are all well formed. -/
def AllWellFormed (scope : List String) : List Node → Prop
  | [] => True
  | node :: rest => node.WellFormed scope ∧ AllWellFormed scope rest

end

theorem allWellFormed_iff {scope : List String} {nodes : List Node} :
    AllWellFormed scope nodes ↔ ∀ node ∈ nodes, node.WellFormed scope := by
  induction nodes with
  | nil => exact ⟨fun _ _ hnode => absurd hnode List.not_mem_nil, fun _ => trivial⟩
  | cons node rest ih => rw [AllWellFormed, ih, List.forall_mem_cons]

/-- Reading makes well-formed expressions of well-formed ones. -/
theorem wellFormed_readingClosed (environment : Environment) :
    ReadingClosed environment Node.WellFormed where
  literal _ := trivial
  definition _ := trivial
  group _ := trivial
  parameter hmem := hmem
  tableName _ := trivial
  unary _ hoperand := hoperand
  binary _ hleft hright := ⟨hleft, hright⟩
  index htarget hposition := ⟨htarget, hposition⟩
  array helements := allWellFormed_iff.mpr helements
  lambda _ hbody := hbody
  call haccepts harguments := ⟨haccepts, allWellFormed_iff.mpr harguments⟩
  test haccepts harguments := ⟨haccepts, allWellFormed_iff.mpr harguments⟩
  procedure haccepts harguments :=
    ⟨haccepts, fun hpairwise => (nomatch hpairwise), allWellFormed_iff.mpr harguments⟩
  pairwise hsource hprocedure := ⟨hprocedure.1, fun _ => hsource, hprocedure.2.2⟩
  pipe hgroup hleft hprocedure := ⟨hgroup, hleft, hprocedure⟩
  command haccepts harguments := ⟨haccepts, allWellFormed_iff.mpr harguments⟩

end Patchwork
