import Patchwork.Proofs.Relocation.Cursors
import Patchwork.Proofs.Relocation.Worlds
import Patchwork.Statement

/-!
# Reading after a relocation

A line is read alike whatever places and marks there are: where names have
corresponding meanings, it is read as corresponding statements or is rejected
for the same reason.
-/

namespace Patchwork

open Agree Reader

namespace Relocation

variable (relocation : Relocation)

/-- Names with corresponding meanings. -/
structure Namings (names names' : Names) : Prop where
  environments : relocation.Environments names.environment names'.environment
  labels : ∀ ref, names'.labels (relocation.ref ref) = names.labels ref
  parameters : names'.parameters = names.parameters

variable {relocation}

theorem forall₂_nodes_iff {nodes nodes' : List Node} :
    List.Forall₂ relocation.Nodes nodes nodes' ↔
      nodes' = relocateNodes relocation nodes ∧ freeNodes relocation nodes := by
  rw [relocateNodes_eq_map, freeNodes_iff]
  exact forall₂_eq_map_iff

theorem nodes_literal {value value' : Value} (hvalues : relocation.Values value value') :
    relocation.Nodes (.literal value) (.literal value') :=
  ⟨congrArg Node.literal hvalues.1, hvalues.2⟩

theorem nodes_group {group group' : Group} (hgroups : relocation.Groups group group') :
    relocation.Nodes (.group group) (.group group') :=
  ⟨congrArg Node.group hgroups.1, hgroups.2⟩

section Nodes

variable {left left' right right' : Node} {arguments arguments' : List Node}

theorem nodes_unary (operator : UnaryOperator) (hnodes : relocation.Nodes left left') :
    relocation.Nodes (.unary operator left) (.unary operator left') :=
  ⟨congrArg (Node.unary operator) hnodes.1, hnodes.2⟩

theorem nodes_binary (operator : BinaryOperator) (hleft : relocation.Nodes left left')
    (hright : relocation.Nodes right right') :
    relocation.Nodes (.binary operator left right) (.binary operator left' right') :=
  ⟨congrArg₂ (Node.binary operator) hleft.1 hright.1, hleft.2, hright.2⟩

theorem nodes_index (hleft : relocation.Nodes left left')
    (hright : relocation.Nodes right right') :
    relocation.Nodes (.index left right) (.index left' right') :=
  ⟨congrArg₂ Node.index hleft.1 hright.1, hleft.2, hright.2⟩

theorem nodes_lambda (parameter : String) (hnodes : relocation.Nodes left left') :
    relocation.Nodes (.lambda parameter left) (.lambda parameter left') :=
  ⟨congrArg (Node.lambda parameter) hnodes.1, hnodes.2⟩

variable (harguments : List.Forall₂ relocation.Nodes arguments arguments')

include harguments

theorem nodes_call (function : Function) :
    relocation.Nodes (.call function arguments) (.call function arguments') :=
  ⟨congrArg (Node.call function) (forall₂_nodes_iff.mp harguments).1,
    (forall₂_nodes_iff.mp harguments).2⟩

theorem nodes_test (predicate : Predicate) :
    relocation.Nodes (.test predicate arguments) (.test predicate arguments') :=
  ⟨congrArg (Node.test predicate) (forall₂_nodes_iff.mp harguments).1,
    (forall₂_nodes_iff.mp harguments).2⟩

theorem nodes_array : relocation.Nodes (.array arguments) (.array arguments') :=
  ⟨congrArg Node.array (forall₂_nodes_iff.mp harguments).1,
    (forall₂_nodes_iff.mp harguments).2⟩

theorem nodes_procedure (procedure : Procedure) (pairwise : Bool) :
    relocation.Nodes (.procedure procedure arguments pairwise)
      (.procedure procedure arguments' pairwise) :=
  ⟨congrArg (Node.procedure procedure · pairwise) (forall₂_nodes_iff.mp harguments).1,
    (forall₂_nodes_iff.mp harguments).2⟩

theorem nodes_command (command : Command) :
    relocation.Nodes (.command command arguments) (.command command arguments') :=
  ⟨congrArg (Node.command command) (forall₂_nodes_iff.mp harguments).1,
    (forall₂_nodes_iff.mp harguments).2⟩

end Nodes

end Relocation

variable {relocation : Relocation} {names names' : Names}

/-! ## Making expressions -/

section Making

variable {left left' right right' : Node} {arguments arguments' : List Node}

theorem makePipe_relocate (hnamings : relocation.Namings names names') (token : Token)
    (hleft : relocation.Nodes left left') (hright : relocation.Nodes right right') :
    Transactions Cursors relocation.Nodes (makePipe names token left right)
      (makePipe names' token left' right') := by
  obtain ⟨rfl, hleftFree⟩ := hleft
  obtain ⟨rfl, hrightFree⟩ := hright
  have hlefttext := Node.text_relocate hnamings.labels left
  have hrighttext := Node.text_relocate hnamings.labels right
  cases right with
  | procedure procedure arguments pairwise =>
    simp only [Node.relocate, makePipe, Node.producesGroup_relocate, hlefttext]
    split
    · exact Transactions.of_pure ⟨rfl, hleftFree, hrightFree⟩
    · exact Transactions.of_throw _
  | _ =>
    unfold makePipe
    dsimp only [Node.relocate]
    simp only [Node.relocate] at hrighttext
    rw [hrighttext]
    exact Transactions.of_throw _

theorem makeJoined_relocate (hnamings : relocation.Namings names names') (token : Token)
    (operator : Connective) (hleft : relocation.Nodes left left')
    (hright : relocation.Nodes right right') :
    Transactions Cursors relocation.Nodes (makeJoined names token operator left right)
      (makeJoined names' token operator left' right') := by
  cases operator with
  | arrow => exact makePipe_relocate hnamings token hleft hright
  | operator between => exact Transactions.of_pure (Relocation.nodes_binary between hleft hright)

theorem readName_relocate (hnamings : relocation.Namings names names') (token : Token) :
    Transactions Cursors relocation.Nodes (readName names token) (readName names' token) := by
  unfold readName
  obtain ⟨henvironment, hfree⟩ := hnamings.environments
  rw [hnamings.parameters, henvironment, Environment.lookup?_relocate]
  split
  · exact Transactions.of_pure ⟨rfl, trivial⟩
  · cases hvalue : names.environment.lookup? token.text with
    | none => exact Transactions.of_throw _
    | some value =>
      have hvalues : relocation.Values value (value.relocate relocation) :=
        ⟨rfl, hfree.lookup? hvalue⟩
      cases value with
      | group group => exact Transactions.of_pure ⟨rfl, hvalues.2⟩
      | _ => exact Transactions.of_pure (Relocation.nodes_literal hvalues)

theorem makeCall_relocate (token : Token) (callee : Callee)
    (harguments : List.Forall₂ relocation.Nodes arguments arguments') :
    Transactions Cursors relocation.Nodes (makeCall token callee arguments)
      (makeCall token callee arguments') := by
  unfold makeCall
  rw [← harguments.length_eq]
  split
  · exact Transactions.of_throw _
  · cases callee with
    | predicate predicate =>
      exact Transactions.of_pure (Relocation.nodes_test harguments predicate)
    | procedure procedure =>
      exact Transactions.of_pure (Relocation.nodes_procedure harguments procedure false)
    | function function =>
      exact Transactions.of_pure (Relocation.nodes_call harguments function)

theorem makePairwise_of_two (token : Token) (first second : Node) (rest : List Node) :
    makePairwise token (first :: second :: rest) = failAt token .notOneProcedure := by
  cases first <;> rfl

theorem makePairwise_relocate (token : Token)
    (harguments : List.Forall₂ relocation.Nodes arguments arguments') :
    Transactions Cursors relocation.Nodes (makePairwise token arguments)
      (makePairwise token arguments') := by
  cases harguments with
  | nil => exact Transactions.of_throw _
  | cons hfirst hrest =>
    cases hrest with
    | cons hsecond hothers =>
      rw [makePairwise_of_two, makePairwise_of_two]
      exact Transactions.of_throw _
    | nil =>
      obtain ⟨rfl, hfree⟩ := hfirst
      rename_i node
      cases node with
      | procedure procedure inner pairwise =>
        unfold makePairwise
        dsimp only [Node.relocate]
        split
        · exact Transactions.of_pure ⟨rfl, hfree⟩
        · exact Transactions.of_throw _
      | _ => exact Transactions.of_throw _

end Making

/-! ## Reading expressions -/

/-- What reading with a budget gives for names with corresponding meanings. -/
structure Relocation.Readings (relocation : Relocation) (budget : Nat) : Prop where
  operation : ∀ names names', relocation.Namings names names' → ∀ level,
    Transactions Cursors relocation.Nodes (readOperation budget names level)
      (readOperation budget names' level)
  operations : ∀ names names', relocation.Namings names names' → ∀ level left left',
    relocation.Nodes left left' →
    Transactions Cursors relocation.Nodes (readOperations budget names level left)
      (readOperations budget names' level left')
  operand : ∀ names names', relocation.Namings names names' →
    Transactions Cursors relocation.Nodes (readOperand budget names) (readOperand budget names')
  indexes : ∀ names names', relocation.Namings names names' → ∀ target target',
    relocation.Nodes target target' →
    Transactions Cursors relocation.Nodes (readIndexes budget names target)
      (readIndexes budget names' target')
  primary : ∀ names names', relocation.Namings names names' →
    Transactions Cursors relocation.Nodes (readPrimary budget names) (readPrimary budget names')
  identifier : ∀ names names', relocation.Namings names names' →
    Transactions Cursors relocation.Nodes (readIdentifier budget names)
      (readIdentifier budget names')
  list : ∀ names names', relocation.Namings names names' → ∀ closing,
    Transactions Cursors (List.Forall₂ relocation.Nodes) (readList budget names closing)
      (readList budget names' closing)
  more : ∀ names names', relocation.Namings names names' →
    Transactions Cursors (List.Forall₂ relocation.Nodes) (readMore budget names)
      (readMore budget names')
  arguments : ∀ names names', relocation.Namings names names' →
    Transactions Cursors (List.Forall₂ relocation.Nodes) (readArguments budget names)
      (readArguments budget names')
  call : ∀ names names', relocation.Namings names names' → ∀ token,
    Transactions Cursors relocation.Nodes (readCall budget names token)
      (readCall budget names' token)

section Steps

variable {budget : Nat} (hreadings : relocation.Readings budget)
variable (hnamings : relocation.Namings names names')

include hreadings hnamings

theorem readOperation_relocate (level : Nat) :
    Transactions Cursors relocation.Nodes (readOperation (budget + 1) names level)
      (readOperation (budget + 1) names' level) :=
  (hreadings.operand names names' hnamings).of_bind fun left left' hleft =>
    hreadings.operations names names' hnamings level left left' hleft

theorem readOperations_relocate (level : Nat) {left left' : Node}
    (hleft : relocation.Nodes left left') :
    Transactions Cursors relocation.Nodes (readOperations (budget + 1) names level left)
      (readOperations (budget + 1) names' level left') := by
  refine agree_current.of_bind fun token token' htokens => ?_
  obtain ⟨rfl, -⟩ := htokens
  cases Connective.ofToken? token with
  | none => exact Transactions.of_pure hleft
  | some operator =>
    dsimp only
    split
    · exact Transactions.of_pure hleft
    · refine agree_advance.of_bind fun _ _ _ => ?_
      refine (hreadings.operation names names' hnamings _).of_bind fun right right' hright => ?_
      refine (makeJoined_relocate hnamings token operator hleft hright).of_bind
        fun joined joined' hjoined => ?_
      exact hreadings.operations names names' hnamings level joined joined' hjoined

theorem readOperand_relocate :
    Transactions Cursors relocation.Nodes (readOperand (budget + 1) names)
      (readOperand (budget + 1) names') := by
  refine agree_current.of_bind fun token token' htokens => ?_
  obtain ⟨rfl, -⟩ := htokens
  split
  · refine agree_advance.of_bind fun _ _ _ => ?_
    exact (hreadings.operation names names' hnamings _).of_bind fun _ _ hoperand =>
      Transactions.of_pure (Relocation.nodes_unary _ hoperand)
  · exact (hreadings.primary names names' hnamings).of_bind fun primary primary' hprimary =>
      hreadings.indexes names names' hnamings primary primary' hprimary

theorem readIndexes_relocate {target target' : Node}
    (htarget : relocation.Nodes target target') :
    Transactions Cursors relocation.Nodes (readIndexes (budget + 1) names target)
      (readIndexes (budget + 1) names' target') := by
  refine (agree_at? .leftBracket).of_bind fun here here' hhere => ?_
  subst hhere
  split
  · refine agree_advance.of_bind fun _ _ _ => ?_
    refine (hreadings.operation names names' hnamings 0).of_bind fun _ _ hposition => ?_
    refine (agree_expect .rightBracket .openIndex).of_bind fun _ _ _ => ?_
    exact hreadings.indexes names names' hnamings _ _
      (Relocation.nodes_index htarget hposition)
  · exact Transactions.of_pure htarget

theorem readPrimary_relocate :
    Transactions Cursors relocation.Nodes (readPrimary (budget + 1) names)
      (readPrimary (budget + 1) names') := by
  refine agree_current.of_bind fun token token' htokens => ?_
  obtain ⟨rfl, hscanned⟩ := htokens
  cases hkind : token.kind with
  | int number =>
    exact agree_advance.of_bind fun _ _ _ =>
      Transactions.of_pure (Relocation.nodes_literal (Relocation.values_integer number))
  | float number =>
    have hnumber : number.remark relocation.mark = number :=
      Binary64.remark_of_float? relocation.mark_zero (hscanned number hkind)
    exact agree_advance.of_bind fun _ _ _ =>
      Transactions.of_pure (Relocation.nodes_literal (Relocation.values_float_of_eq hnumber))
  | string content =>
    exact agree_advance.of_bind fun _ _ _ =>
      Transactions.of_pure (Relocation.nodes_literal (Relocation.values_string content))
  | bool flag =>
    refine agree_next.of_bind fun following following' hfollowing => ?_
    obtain ⟨rfl, -⟩ := hfollowing
    refine agree_advance.of_bind fun _ _ _ => ?_
    split
    · exact hreadings.call names names' hnamings token
    · exact Transactions.of_pure (Relocation.nodes_literal (Relocation.values_boolean flag))
  | identifier => exact hreadings.identifier names names' hnamings
  | leftParen =>
    refine agree_advance.of_bind fun _ _ _ => ?_
    refine (hreadings.operation names names' hnamings 0).of_bind fun _ _ hinner => ?_
    exact (agree_expect .rightParen .openParen).of_bind fun _ _ _ =>
      Transactions.of_pure hinner
  | leftBracket =>
    refine agree_advance.of_bind fun _ _ _ => ?_
    refine (hreadings.list names names' hnamings .rightBracket).of_bind fun _ _ helements => ?_
    exact (agree_expect .rightBracket .openArray).of_bind fun _ _ _ =>
      Transactions.of_pure (Relocation.nodes_array helements)
  | _ => exact Transactions.of_throw _

theorem readIdentifier_relocate :
    Transactions Cursors relocation.Nodes (readIdentifier (budget + 1) names)
      (readIdentifier (budget + 1) names') := by
  refine agree_next.of_bind fun following following' hfollowing => ?_
  refine agree_advance.of_bind fun token token' htokens => ?_
  obtain ⟨rfl, -⟩ := hfollowing
  obtain ⟨rfl, -⟩ := htokens
  split
  · refine agree_advance.of_bind fun _ _ _ => ?_
    have hinner : relocation.Namings
        { names with parameters := names.parameters ++ [token.text] }
        { names' with parameters := names'.parameters ++ [token.text] } :=
      ⟨hnamings.environments, hnamings.labels, by rw [hnamings.parameters]⟩
    exact (hreadings.operation _ _ hinner _).of_bind fun _ _ hbody =>
      Transactions.of_pure (Relocation.nodes_lambda token.text hbody)
  · split
    · exact Transactions.of_pure ⟨rfl, trivial⟩
    · split
      · exact hreadings.call names names' hnamings token
      · exact readName_relocate hnamings token

theorem readList_relocate (closing : TokenKind) :
    Transactions Cursors (List.Forall₂ relocation.Nodes) (readList (budget + 1) names closing)
      (readList (budget + 1) names' closing) := by
  refine (agree_at? closing).of_bind fun here here' hhere => ?_
  subst hhere
  split
  · exact Transactions.of_pure List.Forall₂.nil
  · refine (hreadings.operation names names' hnamings 0).of_bind fun _ _ hfirst => ?_
    exact (hreadings.more names names' hnamings).of_bind fun _ _ hrest =>
      Transactions.of_pure (List.Forall₂.cons hfirst hrest)

theorem readMore_relocate :
    Transactions Cursors (List.Forall₂ relocation.Nodes) (readMore (budget + 1) names)
      (readMore (budget + 1) names') := by
  refine (agree_at? .comma).of_bind fun here here' hhere => ?_
  subst hhere
  split
  · refine agree_advance.of_bind fun _ _ _ => ?_
    refine (hreadings.operation names names' hnamings 0).of_bind fun _ _ hfirst => ?_
    exact (hreadings.more names names' hnamings).of_bind fun _ _ hrest =>
      Transactions.of_pure (List.Forall₂.cons hfirst hrest)
  · exact Transactions.of_pure List.Forall₂.nil

theorem readArguments_relocate :
    Transactions Cursors (List.Forall₂ relocation.Nodes) (readArguments (budget + 1) names)
      (readArguments (budget + 1) names') := by
  refine (agree_expect .leftParen .noArguments).of_bind fun _ _ _ => ?_
  refine (hreadings.list names names' hnamings .rightParen).of_bind fun _ _ hlist => ?_
  exact (agree_expect .rightParen .openArguments).of_bind fun _ _ _ =>
    Transactions.of_pure hlist

theorem readCall_relocate (token : Token) :
    Transactions Cursors relocation.Nodes (readCall (budget + 1) names token)
      (readCall (budget + 1) names' token) := by
  unfold readCall
  split
  · exact (hreadings.arguments names names' hnamings).of_bind fun _ _ harguments =>
      makePairwise_relocate token harguments
  · split
    · exact Transactions.of_throw _
    · exact (hreadings.arguments names names' hnamings).of_bind fun _ _ harguments =>
        makeCall_relocate token _ harguments

end Steps

theorem readings_relocate (relocation : Relocation) (budget : Nat) :
    relocation.Readings budget := by
  induction budget with
  | zero =>
    exact {
      operation := fun _ _ _ _ => Transactions.of_throw _
      operations := fun _ _ _ _ _ _ _ => Transactions.of_throw _
      operand := fun _ _ _ => Transactions.of_throw _
      indexes := fun _ _ _ _ _ _ => Transactions.of_throw _
      primary := fun _ _ _ => Transactions.of_throw _
      identifier := fun _ _ _ => Transactions.of_throw _
      list := fun _ _ _ _ => Transactions.of_throw _
      more := fun _ _ _ => Transactions.of_throw _
      arguments := fun _ _ _ => Transactions.of_throw _
      call := fun _ _ _ _ => Transactions.of_throw _ }
  | succ budget ih =>
    exact {
      operation := fun _ _ hnamings level => readOperation_relocate ih hnamings level
      operations := fun _ _ hnamings level _ _ hleft =>
        readOperations_relocate ih hnamings level hleft
      operand := fun _ _ hnamings => readOperand_relocate ih hnamings
      indexes := fun _ _ hnamings _ _ htarget => readIndexes_relocate ih hnamings htarget
      primary := fun _ _ hnamings => readPrimary_relocate ih hnamings
      identifier := fun _ _ hnamings => readIdentifier_relocate ih hnamings
      list := fun _ _ hnamings closing => readList_relocate ih hnamings closing
      more := fun _ _ hnamings => readMore_relocate ih hnamings
      arguments := fun _ _ hnamings => readArguments_relocate ih hnamings
      call := fun _ _ hnamings token => readCall_relocate ih hnamings token }

/-! ## Reading lines -/

theorem Node.ofText_relocate (hnamings : relocation.Namings names names') (text : String) :
    Outcomes relocation.Nodes (Node.ofText names text) (Node.ofText names' text) := by
  refine agree_run ?_ text
  refine agree_budgetHere.of_bind fun budget budget' hbudget => ?_
  subst hbudget
  refine ((readings_relocate relocation budget).operation names names' hnamings 0).of_bind
    fun node node' hnodes => ?_
  exact agree_expectFinish.of_bind fun _ _ _ => Transactions.of_pure hnodes

theorem Node.ofCommandText_relocate (hnamings : relocation.Namings names names')
    (text : String) :
    Outcomes relocation.Nodes (Node.ofCommandText names text)
      (Node.ofCommandText names' text) := by
  refine agree_run ?_ text
  refine (agree_expect .atSign .noAtSign).of_bind fun _ _ _ => ?_
  refine (agree_expect .identifier .noCommandName).of_bind fun token token' htokens => ?_
  obtain ⟨rfl, -⟩ := htokens
  cases Command.named? token.text with
  | none => exact Transactions.of_throw _
  | some named =>
    refine agree_budgetHere.of_bind fun budget budget' hbudget => ?_
    subst hbudget
    refine ((readings_relocate relocation budget).arguments names names' hnamings).of_bind
      fun arguments arguments' harguments => ?_
    rw [← harguments.length_eq]
    split
    · exact Transactions.of_throw _
    · exact agree_expectFinish.of_bind fun _ _ _ =>
        Transactions.of_pure (Relocation.nodes_command harguments named)

namespace Statement

/-- Statements that do the same with corresponding expressions. -/
inductive Alike (relocation : Relocation) : Statement → Statement → Prop
  | define (target : Target) {expression expression' : Node}
      (hexpression : relocation.Nodes expression expression') :
      Alike relocation (.define target expression) (.define target expression')
  | query (target : Target) (selector : String) (definition : RecordDefinition)
      {condition condition' : Node} (hcondition : relocation.Nodes condition condition') :
      Alike relocation (.query target ⟨selector, definition, condition⟩)
        (.query target ⟨selector, definition, condition'⟩)
  | extract (target : Target) (source : String) {condition condition' : Node}
      (hcondition : relocation.Nodes condition condition') :
      Alike relocation (.extract target source condition) (.extract target source condition')
  | invoke {expression expression' : Node}
      (hexpression : relocation.Nodes expression expression') :
      Alike relocation (.invoke expression) (.invoke expression')

/-- What reading a group query gives. -/
inductive Queries (relocation : Relocation) : Option GroupQuery → Option GroupQuery → Prop
  | none : Queries relocation none none
  | some (selector : String) (definition : RecordDefinition) {condition condition' : Node}
      (hcondition : relocation.Nodes condition condition') :
      Queries relocation (some ⟨selector, definition, condition⟩)
        (some ⟨selector, definition, condition'⟩)

theorem readQuery_relocate (hnamings : relocation.Namings names names') (text : String) :
    Outcomes (Queries relocation) (readQuery names text) (readQuery names' text) := by
  unfold readQuery
  cases QueryText.ofText? text with
  | none => exact .ok .none
  | some parts =>
    dsimp only
    cases RecordDefinition.ofText? parts.body with
    | none => exact .error _
    | some definition =>
      exact (Node.ofText_relocate hnamings _).of_bind fun _ _ hcondition =>
        .ok (.some _ definition hcondition)

theorem readDefinition_relocate (hnamings : relocation.Namings names names') (line : String) :
    Outcomes (Alike relocation) (readDefinition names line) (readDefinition names' line) := by
  unfold readDefinition
  generalize sides definitionOperator line = parts
  obtain ⟨left, right⟩ := parts
  dsimp only
  refine Outcomes.of_bind (Outcomes.refl (Target.ofText left)) fun target target' htarget => ?_
  subst htarget
  split
  · exact .error _
  · refine (readQuery_relocate hnamings _).of_bind fun query query' hquery => ?_
    cases hquery with
    | none =>
      exact (Node.ofText_relocate hnamings _).of_bind fun _ _ hexpression =>
        .ok (.define target hexpression)
    | some selector definition hcondition =>
      exact .ok (.query target selector definition hcondition)

theorem readExtraction_relocate (hnamings : relocation.Namings names names') (line : String) :
    Outcomes (Alike relocation) (readExtraction names line) (readExtraction names' line) := by
  unfold readExtraction
  generalize sides extractionOperator line = parts
  obtain ⟨left, right⟩ := parts
  dsimp only
  refine Outcomes.of_bind (Outcomes.refl (Target.ofText left)) fun target target' htarget => ?_
  subst htarget
  cases ExtractionText.ofText? right with
  | none => exact .error _
  | some parts =>
    exact (Node.ofText_relocate hnamings _).of_bind fun _ _ hcondition =>
      .ok (.extract target _ hcondition)

theorem readPipe_relocate (hnamings : relocation.Namings names names') (line : String) :
    Outcomes (Alike relocation) (readPipe names line) (readPipe names' line) := by
  refine (Node.ofText_relocate hnamings line).of_bind fun node node' hnodes => ?_
  have htext : node'.text names'.labels = node.text names.labels := by
    rw [hnodes.1, Node.text_relocate hnamings.labels]
  obtain ⟨rfl, hfree⟩ := hnodes
  cases node with
  | pipe left procedure arguments pairwise => exact .ok (.invoke ⟨rfl, hfree⟩)
  | _ =>
    simp only [Node.relocate] at htext
    dsimp only [Node.relocate]
    rw [htext]
    exact .error _

theorem ofLine_relocate (hnamings : relocation.Namings names names') (line : String) :
    Outcomes (Alike relocation) (ofLine names line) (ofLine names' line) := by
  refine (Outcomes.refl (classifyLine line)).of_bind fun kind kind' hkind => ?_
  subst hkind
  cases kind with
  | definition => exact readDefinition_relocate hnamings line
  | extraction => exact readExtraction_relocate hnamings line
  | command =>
    exact (Node.ofCommandText_relocate hnamings line).of_bind fun _ _ hnodes =>
      .ok (.invoke hnodes)
  | procedure => exact readPipe_relocate hnamings line

end Statement

end Patchwork
