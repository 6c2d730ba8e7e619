import Patchwork.Proofs.Expression.Lookahead

/-!
# What names mean while an expression is read

Of all that is defined, reading looks at the definitions of the names it meets, and at no
definition of a name that is a parameter of an enclosing lambda.  How records are called only
shows in the messages of faults.  So an expression that has been read is read alike when nothing
but these things has changed.
-/

namespace Patchwork

open Reader

/-- The same parameters, and the same definitions of all other names. -/
structure Names.Agree (names others : Names) : Prop where
  parameters : others.parameters = names.parameters
  definitions : ∀ name ∉ names.parameters,
    others.environment.lookup? name = names.environment.lookup? name

/-- Names that agree do so inside a lambda. -/
theorem Names.Agree.inside {names others : Names} (hagree : names.Agree others) (parameter : String) :
    Names.Agree { names with parameters := names.parameters ++ [parameter] }
      { others with parameters := others.parameters ++ [parameter] } where
  parameters := congrArg (· ++ [parameter]) hagree.parameters
  definitions name hname := hagree.definitions name fun hmem =>
    hname (List.mem_append_left _ hmem)

/-- One name more may be defined differently where it is a parameter. -/
theorem Names.agree_inside {names others : Names} {parameter : String}
    (hparameters : others.parameters = names.parameters)
    (hdefinitions : ∀ name ≠ parameter,
      others.environment.lookup? name = names.environment.lookup? name) :
    Names.Agree { names with parameters := names.parameters ++ [parameter] }
      { others with parameters := others.parameters ++ [parameter] } where
  parameters := congrArg (· ++ [parameter]) hparameters
  definitions name hname := hdefinitions name fun hsame =>
    hname (List.mem_append_right _ (List.mem_singleton.mpr hsame))

namespace Reader

variable {Result Next : Type}

/-- Whatever the first reader gives, the second one gives as well. -/
def Entails (first second : Reader Result) : Prop :=
  ∀ cursor result after, first cursor = .ok (result, after) → second cursor = .ok (result, after)

theorem Entails.refl (reader : Reader Result) : Entails reader reader :=
  fun _ _ _ hrun => hrun

theorem entails_throw (fault : Fault) (second : Reader Result) : Entails (throw fault) second :=
  fun _ _ _ hrun => nomatch hrun

theorem Entails.bind {first second : Reader Result} {next others : Result → Reader Next}
    (hfirst : Entails first second) (hnext : ∀ result, Entails (next result) (others result)) :
    Entails (first >>= next) (second >>= others) := by
  intro cursor last after hrun
  obtain ⟨result, mid, hresult, hlast⟩ := exists_of_bind hrun
  change (second cursor >>= fun step => others step.1 step.2) = _
  rw [hfirst _ _ _ hresult]
  exact hnext result mid last after hlast

/-- Whatever the first reader gives that is wanted, the second one gives as well. -/
def EntailsWhere (wanted : Result → Prop) (first second : Reader Result) : Prop :=
  ∀ cursor result after, wanted result → first cursor = .ok (result, after) →
    second cursor = .ok (result, after)

theorem EntailsWhere.run {wanted : Result → Prop} {first second : Reader Result}
    (hreaders : EntailsWhere wanted first second) {text : String} {result : Result}
    (hwanted : wanted result) (hrun : first.run text = .ok result) :
    second.run text = .ok result := by
  obtain ⟨⟨given, after⟩, hgiven, rfl⟩ := exists_of_map_eq_ok hrun
  have hboth : EntailsWhere wanted (current >>= fun _ => first) (current >>= fun _ => second) := by
    intro cursor given after hgiven hrun
    obtain ⟨token, mid, htoken, hfirst⟩ := exists_of_bind hrun
    change (current cursor >>= fun step => second step.2) = _
    rw [htoken]
    exact hreaders mid given after hgiven hfirst
  rw [Reader.run]
  change Except.map Prod.fst ((current >>= fun _ => second) _) = _
  rw [hboth _ _ _ hwanted hgiven]
  rfl

theorem Entails.where {first second : Reader Result} (hreaders : Entails first second)
    (wanted : Result → Prop) : EntailsWhere wanted first second :=
  fun cursor result after _ hrun => hreaders cursor result after hrun

theorem Entails.run {first second : Reader Result} (hreaders : Entails first second) {text : String}
    {result : Result} (hrun : first.run text = .ok result) : second.run text = .ok result :=
  (hreaders.where fun _ => True).run trivial hrun

/-- The first steps are the same. -/
theorem Entails.after (reader : Reader Result) {next others : Result → Reader Next}
    (hnext : ∀ result, Entails (next result) (others result)) :
    Entails (reader >>= next) (reader >>= others) :=
  (Entails.refl reader).bind hnext

end Reader

variable {names others : Names}

section Making

variable {token : Token}

theorem entails_makeJoined (operator : Connective) (left right : Node) :
    Entails (makeJoined names token operator left right)
      (makeJoined others token operator left right) := by
  cases operator with
  | operator between => exact .refl _
  | arrow =>
    change Entails (makePipe names token left right) (makePipe others token left right)
    unfold makePipe
    split
    · split
      · exact .refl _
      · exact entails_throw _ _
    · exact entails_throw _ _

theorem entails_readName (hagree : names.Agree others) :
    Entails (readName names token) (readName others token) := by
  unfold readName
  rw [hagree.parameters]
  split
  · exact .refl _
  · rename_i hparameter
    have hname : token.text ∉ names.parameters := by simpa using hparameter
    rw [hagree.definitions token.text hname]
    split
    · exact entails_throw _ _
    · exact .refl _
    · exact .refl _

end Making

/-- All readers with a budget give the same for names that agree. -/
structure ReadsAlike (budget : Nat) : Prop where
  operation : ∀ {names others : Names}, names.Agree others → ∀ level,
    Entails (readOperation budget names level) (readOperation budget others level)
  operations : ∀ {names others : Names}, names.Agree others → ∀ level left,
    Entails (readOperations budget names level left) (readOperations budget others level left)
  operand : ∀ {names others : Names}, names.Agree others →
    Entails (readOperand budget names) (readOperand budget others)
  indexes : ∀ {names others : Names}, names.Agree others → ∀ target,
    Entails (readIndexes budget names target) (readIndexes budget others target)
  primary : ∀ {names others : Names}, names.Agree others →
    Entails (readPrimary budget names) (readPrimary budget others)
  identifier : ∀ {names others : Names}, names.Agree others →
    Entails (readIdentifier budget names) (readIdentifier budget others)
  list : ∀ {names others : Names}, names.Agree others → ∀ closing,
    Entails (readList budget names closing) (readList budget others closing)
  more : ∀ {names others : Names}, names.Agree others →
    Entails (readMore budget names) (readMore budget others)
  arguments : ∀ {names others : Names}, names.Agree others →
    Entails (readArguments budget names) (readArguments budget others)
  call : ∀ {names others : Names}, names.Agree others → ∀ token,
    Entails (readCall budget names token) (readCall budget others token)

section Steps

variable {budget : Nat} (hreads : ReadsAlike budget) (hagree : names.Agree others)

include hreads hagree

theorem entails_readOperations (level : Nat) (left : Node) :
    Entails (readOperations (budget + 1) names level left)
      (readOperations (budget + 1) others level left) := by
  rw [readOperations, readOperations]
  refine .after current fun token => ?_
  cases Connective.ofToken? token with
  | none => exact .refl _
  | some operator =>
    dsimp only
    split_ifs
    · exact .refl _
    · refine .after advance fun _ => (hreads.operation hagree _).bind fun right => ?_
      exact (entails_makeJoined operator left right).bind fun joined =>
        hreads.operations hagree level joined

theorem entails_readOperand :
    Entails (readOperand (budget + 1) names) (readOperand (budget + 1) others) := by
  rw [readOperand, readOperand]
  refine .after current fun token => ?_
  cases (if token.kind == .operator then UnaryOperator.ofSymbol? token.text else none) with
  | none => exact (hreads.primary hagree).bind fun primary => hreads.indexes hagree primary
  | some operator =>
    exact .after advance fun _ => (hreads.operation hagree _).bind fun _ => .refl _

theorem entails_readIndexes (target : Node) :
    Entails (readIndexes (budget + 1) names target) (readIndexes (budget + 1) others target) := by
  rw [readIndexes, readIndexes]
  refine .after (at? .leftBracket) fun here => ?_
  split_ifs
  · refine .after advance fun _ => (hreads.operation hagree 0).bind fun position => ?_
    exact .after _ fun _ => hreads.indexes hagree _
  · exact .refl _

theorem entails_readPrimary :
    Entails (readPrimary (budget + 1) names) (readPrimary (budget + 1) others) := by
  rw [readPrimary, readPrimary]
  refine .after current fun token => ?_
  cases token.kind with
  | bool flag =>
    refine .after next fun following => .after advance fun _ => ?_
    split_ifs
    · exact hreads.call hagree token
    · exact .refl _
  | identifier => exact hreads.identifier hagree
  | leftParen =>
    exact .after advance fun _ => (hreads.operation hagree 0).bind fun _ => .refl _
  | leftBracket =>
    exact .after advance fun _ => (hreads.list hagree .rightBracket).bind fun _ => .refl _
  | _ => exact .refl _

theorem entails_readIdentifier :
    Entails (readIdentifier (budget + 1) names) (readIdentifier (budget + 1) others) := by
  rw [readIdentifier, readIdentifier]
  refine .after next fun following => .after advance fun token => ?_
  split_ifs
  · refine .after advance fun _ => ?_
    exact (hreads.operation (hagree.inside token.text) bodyLevel).bind fun _ => .refl _
  · exact .refl _
  · exact hreads.call hagree token
  · exact entails_readName hagree

theorem entails_readList (closing : TokenKind) :
    Entails (readList (budget + 1) names closing) (readList (budget + 1) others closing) := by
  rw [readList, readList]
  refine .after (at? closing) fun here => ?_
  split_ifs
  · exact .refl _
  · exact (hreads.operation hagree 0).bind fun _ => (hreads.more hagree).bind fun _ => .refl _

theorem entails_readMore :
    Entails (readMore (budget + 1) names) (readMore (budget + 1) others) := by
  rw [readMore, readMore]
  refine .after (at? .comma) fun here => ?_
  split_ifs
  · refine .after advance fun _ => (hreads.operation hagree 0).bind fun _ => ?_
    exact (hreads.more hagree).bind fun _ => .refl _
  · exact .refl _

theorem entails_readArguments :
    Entails (readArguments (budget + 1) names) (readArguments (budget + 1) others) := by
  rw [readArguments, readArguments]
  exact .after _ fun _ => (hreads.list hagree .rightParen).bind fun _ => .refl _

theorem entails_readCall (token : Token) :
    Entails (readCall (budget + 1) names token) (readCall (budget + 1) others token) := by
  rw [readCall, readCall]
  split_ifs
  · exact (hreads.arguments hagree).bind fun _ => .refl _
  · cases Callee.named? token.text with
    | none => exact .refl _
    | some callee => exact (hreads.arguments hagree).bind fun _ => .refl _

end Steps

theorem readsAlike (budget : Nat) : ReadsAlike budget := by
  induction budget with
  | zero =>
    exact {
      operation := fun _ _ => entails_throw _ _
      operations := fun _ _ _ => entails_throw _ _
      operand := fun _ => entails_throw _ _
      indexes := fun _ _ => entails_throw _ _
      primary := fun _ => entails_throw _ _
      identifier := fun _ => entails_throw _ _
      list := fun _ _ => entails_throw _ _
      more := fun _ => entails_throw _ _
      arguments := fun _ => entails_throw _ _
      call := fun _ _ => entails_throw _ _ }
  | succ budget ih =>
    constructor
    case operation =>
      intro names others hagree level
      rw [readOperation, readOperation]
      exact (ih.operand hagree).bind fun left => ih.operations hagree level left
    case operations => exact entails_readOperations ih
    case operand => exact entails_readOperand ih
    case indexes => exact entails_readIndexes ih
    case primary => exact entails_readPrimary ih
    case identifier => exact entails_readIdentifier ih
    case list => exact entails_readList ih
    case more => exact entails_readMore ih
    case arguments => exact entails_readArguments ih
    case call => exact entails_readCall ih

/-- A text is read alike with names that agree. -/
theorem Node.ofText_of_agree (hagree : names.Agree others) {text : String} {node : Node}
    (hread : Node.ofText names text = .ok node) : Node.ofText others text = .ok node := by
  have hreaders : Entails
      (do
        let node ← readOperation (← budgetHere) names 0
        expectFinish
        return node)
      (do
        let node ← readOperation (← budgetHere) others 0
        expectFinish
        return node) :=
    .after budgetHere fun budget => ((readsAlike budget).operation hagree 0).bind fun _ => .refl _
  exact hreaders.run hread

end Patchwork
