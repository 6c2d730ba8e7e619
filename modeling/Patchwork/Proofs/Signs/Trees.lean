import Patchwork.Proofs.Signs.Meaning

/-!
# Trees with a minus sign apart from its number

Two expressions are told apart by nothing but the place of one minus sign: in the one it is
taken into a number, in the other it is the operator in front of it.  The relation is kept by
all that expressions are built with, and the two are folded alike unless the number is a zero in
the body of a lambda.
-/

namespace Patchwork

/-! ## The bodies of lambdas -/

mutual

/-- The bodies of the lambdas in an expression that are in no other one. -/
def Node.bodies : Node → List Node
  | .unary _ operand => operand.bodies
  | .binary _ left right => left.bodies ++ right.bodies
  | .call _ arguments => bodiesInNodes arguments
  | .test _ arguments => bodiesInNodes arguments
  | .array elements => bodiesInNodes elements
  | .index target position => target.bodies ++ position.bodies
  | .procedure _ arguments _ => bodiesInNodes arguments
  | .pipe left _ arguments _ => left.bodies ++ bodiesInNodes arguments
  | .lambda _ body => [body]
  | .command _ arguments => bodiesInNodes arguments
  | _ => []

/-- The bodies of the lambdas in the expressions of a list. -/
def bodiesInNodes : List Node → List Node
  | [] => []
  | node :: rest => node.bodies ++ bodiesInNodes rest

end

/-! ## Folded alike -/

/-- There are as many bodies of lambdas, and folding gives the same: for a zero only if the
bodies are the same. -/
structure FoldedAlike (zero : Bool) (bodies bodies' : List Node) (folded : Prop) : Prop where
  length : bodies'.length = bodies.length
  same : (zero = true → bodies' = bodies) → folded

namespace FoldedAlike

variable {zero : Bool} {bodies bodies' more more' : List Node} {folded others both : Prop}

theorem of_folded (hlength : bodies'.length = bodies.length) (hfolded : folded) :
    FoldedAlike zero bodies bodies' folded :=
  ⟨hlength, fun _ => hfolded⟩

theorem mono (halike : FoldedAlike zero bodies bodies' folded) (himp : folded → both) :
    FoldedAlike zero bodies bodies' both :=
  ⟨halike.length, fun hsame => himp (halike.same hsame)⟩

/-- What is put together from two parts is folded alike if they are. -/
theorem append (halike : FoldedAlike zero bodies bodies' folded)
    (hmore : FoldedAlike zero more more' others) (hboth : folded → others → both) :
    FoldedAlike zero (bodies ++ more) (bodies' ++ more') both where
  length := by rw [List.length_append, List.length_append, halike.length, hmore.length]
  same hsame := by
    have hparts : zero = true → bodies' = bodies ∧ more' = more := fun hzero =>
      List.append_inj (hsame hzero) halike.length
    exact hboth (halike.same fun hzero => (hparts hzero).1)
      (hmore.same fun hzero => (hparts hzero).2)

end FoldedAlike

/-- Two expressions are folded alike. -/
def Node.SignApart (zero : Bool) (node node' : Node) : Prop :=
  FoldedAlike zero node.bodies node'.bodies (node.FoldsAs zero node')

/-- Two lists of expressions are folded alike. -/
def SignsApart (zero : Bool) (nodes nodes' : List Node) : Prop :=
  FoldedAlike zero (bodiesInNodes nodes) (bodiesInNodes nodes')
    (foldNodes zero false nodes = foldNodes zero false nodes')

theorem signsApart_of_forall₂ {zero : Bool} {nodes nodes' : List Node}
    (hnodes : List.Forall₂ (Node.SignApart zero) nodes nodes') : SignsApart zero nodes nodes' := by
  induction hnodes with
  | nil => exact .of_folded rfl rfl
  | cons hnode _ ih =>
    refine FoldedAlike.append hnode ih fun hfirst hrest => ?_
    rw [foldNodes, foldNodes, hrest]
    exact congrArg (· :: _) hfirst

namespace Node.SignApart

variable {zero : Bool} {node node' left left' right right' : Node} {nodes nodes' : List Node}

theorem refl (node : Node) : node.SignApart zero node :=
  .of_folded rfl rfl

theorem unary (operator : UnaryOperator) (hnode : node.SignApart zero node') :
    (Node.unary operator node).SignApart zero (.unary operator node') :=
  FoldedAlike.mono hnode fun hfolded => by
    cases operator with
    | not => exact congrArg (Node.unary .not) hfolded
    | negative =>
      exact congrArg (fun operand =>
        (Node.negated? zero operand).getD (.unary .negative operand)) hfolded

theorem binary (operator : BinaryOperator) (hleft : left.SignApart zero left')
    (hright : right.SignApart zero right') :
    (Node.binary operator left right).SignApart zero (.binary operator left' right') :=
  FoldedAlike.append hleft hright fun hleft hright => congrArg₂ (Node.binary operator) hleft hright

theorem index (hleft : left.SignApart zero left') (hright : right.SignApart zero right') :
    (Node.index left right).SignApart zero (.index left' right') :=
  FoldedAlike.append hleft hright fun hleft hright => congrArg₂ Node.index hleft hright

theorem call (function : Function) (hnodes : SignsApart zero nodes nodes') :
    (Node.call function nodes).SignApart zero (.call function nodes') :=
  FoldedAlike.mono hnodes fun hfolded => congrArg (Node.call function) hfolded

theorem test (predicate : Predicate) (hnodes : SignsApart zero nodes nodes') :
    (Node.test predicate nodes).SignApart zero (.test predicate nodes') :=
  FoldedAlike.mono hnodes fun hfolded => congrArg (Node.test predicate) hfolded

theorem array (hnodes : SignsApart zero nodes nodes') :
    (Node.array nodes).SignApart zero (.array nodes') :=
  FoldedAlike.mono hnodes fun hfolded => congrArg Node.array hfolded

theorem procedure (procedure : Procedure) (pairwise : Bool)
    (hnodes : SignsApart zero nodes nodes') :
    (Node.procedure procedure nodes pairwise).SignApart zero
      (.procedure procedure nodes' pairwise) :=
  FoldedAlike.mono hnodes fun hfolded => congrArg (Node.procedure procedure · pairwise) hfolded

theorem pipe (procedure : Procedure) (pairwise : Bool) (hleft : left.SignApart zero left')
    (hnodes : SignsApart zero nodes nodes') :
    (Node.pipe left procedure nodes pairwise).SignApart zero
      (.pipe left' procedure nodes' pairwise) :=
  FoldedAlike.append hleft hnodes fun hleft hnodes =>
    congrArg₂ (Node.pipe · procedure · pairwise) hleft hnodes

/-- In the body of a lambda no sign is taken into a zero. -/
theorem lambda (parameter : String) (hnode : node.SignApart zero node') :
    (Node.lambda parameter node).SignApart zero (.lambda parameter node') where
  length := rfl
  same hsame := by
    refine congrArg (Node.lambda parameter) ?_
    cases zero with
    | false => exact FoldedAlike.same hnode nofun
    | true => rw [(List.cons.inj (hsame rfl)).1]

end Node.SignApart

/-! ## Read alike -/

/-- A call of a procedure that has not been piped into. -/
def Node.isProcedure : Node → Bool
  | .procedure .. => true
  | _ => false

/-- Two calls of one procedure, or two expressions that are none. -/
inductive Node.ProceduresApart (zero : Bool) : Node → Node → Prop
  | procedure {arguments arguments' : List Node} (procedure : Procedure) (pairwise : Bool)
    (harguments : SignsApart zero arguments arguments') :
    ProceduresApart zero (.procedure procedure arguments pairwise)
      (.procedure procedure arguments' pairwise)
  | other {node node' : Node} (hnode : node.isProcedure = false)
    (hnode' : node'.isProcedure = false) : ProceduresApart zero node node'

/-- Two expressions are folded alike, and whatever is read with the one is read with the
other. -/
structure Node.Respelt (zero : Bool) (node node' : Node) : Prop where
  apart : node.SignApart zero node'
  group : node'.producesGroup = node.producesGroup
  procedures : node.ProceduresApart zero node'

/-- A number with a minus sign and indexes after it, and the same without the sign. -/
structure Node.Unsigned (zero : Bool) (node node' : Node) : Prop where
  folded : FoldedAlike zero node.bodies node'.bodies
    ((node'.fold zero false).negated? zero = some (node.fold zero false))
  group : node.producesGroup = false
  procedure : node.isProcedure = false

theorem signsApart_of_respelt {zero : Bool} {nodes nodes' : List Node}
    (hnodes : List.Forall₂ (Node.Respelt zero) nodes nodes') : SignsApart zero nodes nodes' :=
  signsApart_of_forall₂ (hnodes.imp fun _ _ hnode => hnode.apart)

namespace Node

variable {zero : Bool} {node node' position position' : Node}

theorem Respelt.of_apart (hapart : node.SignApart zero node')
    (hgroup : node'.producesGroup = node.producesGroup) (hnode : node.isProcedure = false)
    (hnode' : node'.isProcedure = false) : node.Respelt zero node' :=
  ⟨hapart, hgroup, .other hnode hnode'⟩

theorem Respelt.refl (node : Node) : node.Respelt zero node where
  apart := .refl node
  group := rfl
  procedures := by
    cases hnode : node.isProcedure with
    | false => exact .other hnode hnode
    | true =>
      cases node with
      | procedure procedure arguments pairwise =>
        exact .procedure procedure pairwise (.of_folded rfl rfl)
      | _ => cases hnode

/-- An index stands after both. -/
theorem Respelt.index (hnode : node.Respelt zero node') (hposition : position.Respelt zero position') :
    (Node.index node position).Respelt zero (.index node' position') :=
  .of_apart (.index hnode.apart hposition.apart) rfl rfl rfl

theorem Unsigned.index (hnode : node.Unsigned zero node')
    (hposition : position.Respelt zero position') :
    (Node.index node position).Unsigned zero (.index node' position') where
  folded := FoldedAlike.append hnode.folded hposition.apart fun htarget hposition => by
    rw [Node.fold, Node.fold, Node.negated?, htarget, hposition]
    rfl
  group := rfl
  procedure := rfl

/-- The opposite number in front of which the sign is put. -/
theorem Unsigned.literal {value opposite : Value} (hopposite : value.negated? zero = some opposite) :
    (Node.literal opposite).Unsigned zero (.literal value) where
  folded := .of_folded rfl (by
    obtain ⟨hvalue, hnumber⟩ := Value.isNumber_of_negated? hopposite
    rw [Node.fold, Node.fold, Value.fold_of_isNumber hvalue, Value.fold_of_isNumber hnumber,
      Node.negated?, hopposite]
    rfl)
  group := rfl
  procedure := rfl

/-- With the sign in front of it the number is the same. -/
theorem Unsigned.respelt (hnode : node.Unsigned zero node') :
    node.Respelt zero (.unary .negative node') := by
  refine .of_apart (FoldedAlike.mono hnode.folded fun hfolded => ?_) hnode.group.symm
    hnode.procedure rfl
  rw [FoldsAs, Node.fold, hfolded, Option.getD_some]

end Node

end Patchwork
