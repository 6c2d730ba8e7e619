import Patchwork.Proofs.Expression.Closure
import Patchwork.Proofs.Expression.Meanings

/-!
# Reading lambdas

A lambda comes out of reading only where its parameter stands in front of a double arrow,
perhaps in parentheses: no operator, index or call makes one.  So its text is read alike
when nothing but the definition of its parameter has changed.
-/

namespace Patchwork

open Reader

namespace Reader

variable {Result Next : Type}

variable {wanted : Result → Prop} {wantedNext : Next → Prop}

/-- A reader that gives nothing that is wanted. -/
theorem entailsWhere_of_gives {first second : Reader Result}
    (hgives : first.Gives fun result => ¬ wanted result) : EntailsWhere wanted first second :=
  fun cursor result after hwanted hrun => absurd hwanted (hgives cursor result after hrun)

theorem EntailsWhere.bind {first second : Reader Result} {next others : Result → Reader Next}
    (hfirst : EntailsWhere wanted first second)
    (hunwanted : ∀ result, ¬ wanted result → (next result).Gives fun last => ¬ wantedNext last)
    (hnext : ∀ result, wanted result → EntailsWhere wantedNext (next result) (others result)) :
    EntailsWhere wantedNext (first >>= next) (second >>= others) := by
  intro cursor last after hlast hrun
  obtain ⟨result, mid, hresult, hrest⟩ := exists_of_bind hrun
  by_cases hwanted : wanted result
  · change (second cursor >>= fun step => others step.1 step.2) = _
    rw [hfirst cursor result mid hwanted hresult]
    exact hnext result hwanted mid last after hlast hrest
  · exact absurd hlast (hunwanted result hwanted mid last after hrest)

theorem EntailsWhere.after (reader : Reader Result) {next others : Result → Reader Next}
    (hnext : ∀ result, EntailsWhere wantedNext (next result) (others result)) :
    EntailsWhere wantedNext (reader >>= next) (reader >>= others) := by
  intro cursor last after hlast hrun
  obtain ⟨result, mid, hresult, hrest⟩ := exists_of_bind hrun
  change (reader cursor >>= fun step => others step.1 step.2) = _
  rw [hresult]
  exact hnext result mid last after hlast hrest

end Reader

/-- A lambda with a parameter. -/
def Node.Binds (parameter : String) (node : Node) : Prop :=
  ∃ body, node = .lambda parameter body

variable {parameter : String} {names others : Names}

theorem gives_makeJoined_unbinding {token : Token} (operator : Connective) (left right : Node) :
    (makeJoined names token operator left right).Gives fun node => ¬ node.Binds parameter := by
  cases operator with
  | operator between => exact gives_pure nofun
  | arrow =>
    change (makePipe names token left right).Gives _
    unfold makePipe
    split
    · split
      · exact gives_pure nofun
      · exact gives_throw _
    · exact gives_throw _

theorem gives_readOperations_unbinding (budget : Nat) (level : Nat) {left : Node}
    (hleft : ¬ left.Binds parameter) :
    (readOperations budget names level left).Gives fun node => ¬ node.Binds parameter := by
  induction budget generalizing left with
  | zero => exact gives_throw _
  | succ budget ih =>
    rw [readOperations]
    refine gives_after current fun token => ?_
    cases Connective.ofToken? token with
    | none => exact gives_pure hleft
    | some operator =>
      dsimp only
      split_ifs
      · exact gives_pure hleft
      · refine gives_after advance fun _ => gives_after _ fun right => ?_
        exact (gives_makeJoined_unbinding operator left right).bind fun _ hjoined => ih hjoined

theorem gives_readIndexes_unbinding (budget : Nat) {target : Node}
    (htarget : ¬ target.Binds parameter) :
    (readIndexes budget names target).Gives fun node => ¬ node.Binds parameter := by
  induction budget generalizing target with
  | zero => exact gives_throw _
  | succ budget ih =>
    rw [readIndexes]
    refine gives_after _ fun here => ?_
    split_ifs
    · exact gives_after _ fun _ => gives_after _ fun position => gives_after _ fun _ => ih nofun
    · exact gives_pure htarget

theorem gives_readCall_unbinding (budget : Nat) (token : Token) :
    (readCall budget names token).Gives fun node => ¬ node.Binds parameter := by
  cases budget with
  | zero => exact gives_throw _
  | succ budget =>
    rw [readCall]
    split_ifs
    · refine gives_after _ fun arguments => ?_
      unfold makePairwise
      split
      · split_ifs
        · exact gives_pure (by simp [Node.Binds])
        · exact gives_throw _
      · exact gives_throw _
    · cases Callee.named? token.text with
      | none => exact gives_throw _
      | some callee =>
        refine gives_after _ fun arguments => ?_
        unfold makeCall
        split
        · exact gives_throw _
        · split <;> exact gives_pure (by simp [Node.Binds])

theorem gives_readName_unbinding (token : Token) :
    (readName names token).Gives fun node => ¬ node.Binds parameter := by
  unfold readName
  split
  · exact gives_pure nofun
  · split
    · exact gives_throw _
    · exact gives_pure nofun
    · exact gives_pure nofun

/-- The same parameters, and the same definitions of all names but one. -/
structure Names.AgreeBut (parameter : String) (names others : Names) : Prop where
  parameters : others.parameters = names.parameters
  definitions : ∀ name ≠ parameter,
    others.environment.lookup? name = names.environment.lookup? name

/-- Readers that give the same lambdas with a parameter. -/
structure BindsAlike (parameter : String) (names others : Names) (budget : Nat) : Prop where
  operation : ∀ level, EntailsWhere (Node.Binds parameter) (readOperation budget names level)
    (readOperation budget others level)
  operand : EntailsWhere (Node.Binds parameter) (readOperand budget names)
    (readOperand budget others)
  primary : EntailsWhere (Node.Binds parameter) (readPrimary budget names)
    (readPrimary budget others)
  identifier : EntailsWhere (Node.Binds parameter) (readIdentifier budget names)
    (readIdentifier budget others)

theorem entails_readOperations_binding (budget level : Nat) (left : Node) :
    EntailsWhere (Node.Binds parameter) (readOperations budget names level left)
      (readOperations budget others level left) := by
  cases budget with
  | zero => exact (entails_throw _ _).where _
  | succ budget =>
    rw [readOperations, readOperations]
    refine .after current fun token => ?_
    cases Connective.ofToken? token with
    | none => exact (Entails.refl _).where _
    | some operator =>
      dsimp only
      split_ifs
      · exact (Entails.refl _).where _
      · refine entailsWhere_of_gives (gives_after advance fun _ => gives_after _ fun right => ?_)
        exact (gives_makeJoined_unbinding operator left right).bind fun _ hjoined =>
          gives_readOperations_unbinding budget level hjoined

theorem entails_readIndexes_binding (budget : Nat) (target : Node) :
    EntailsWhere (Node.Binds parameter) (readIndexes budget names target)
      (readIndexes budget others target) := by
  cases budget with
  | zero => exact (entails_throw _ _).where _
  | succ budget =>
    rw [readIndexes, readIndexes]
    refine .after _ fun here => ?_
    split_ifs
    · refine entailsWhere_of_gives (gives_after _ fun _ => gives_after _ fun position =>
        gives_after _ fun _ => gives_readIndexes_unbinding budget nofun)
    · exact (Entails.refl _).where _

theorem bindsAlike (hagree : names.AgreeBut parameter others) (budget : Nat) :
    BindsAlike parameter names others budget := by
  induction budget with
  | zero =>
    exact {
      operation := fun _ => (entails_throw _ _).where _
      operand := (entails_throw _ _).where _
      primary := (entails_throw _ _).where _
      identifier := (entails_throw _ _).where _ }
  | succ budget ih =>
    constructor
    case operation =>
      intro level
      rw [readOperation, readOperation]
      exact ih.operand.bind
        (fun _ hleft => gives_readOperations_unbinding budget level hleft)
        fun left _ => entails_readOperations_binding budget level left
    case operand =>
      rw [readOperand, readOperand]
      refine .after current fun token => ?_
      cases (if token.kind == .operator then UnaryOperator.ofSymbol? token.text else none) with
      | none =>
        exact ih.primary.bind
          (fun _ hprimary => gives_readIndexes_unbinding budget hprimary)
          fun primary _ => entails_readIndexes_binding budget primary
      | some operator =>
        exact entailsWhere_of_gives (gives_after advance fun _ => gives_after _ fun operand =>
          gives_pure nofun)
    case primary =>
      rw [readPrimary, readPrimary]
      refine .after current fun token => ?_
      cases token.kind with
      | bool flag =>
        refine .after next fun following => .after advance fun _ => ?_
        split_ifs
        · exact entailsWhere_of_gives (gives_readCall_unbinding budget token)
        · exact (Entails.refl _).where _
      | identifier => exact ih.identifier
      | leftParen =>
        refine .after advance fun _ => (ih.operation 0).bind (fun inner hinner => ?_)
          fun inner _ => (Entails.refl _).where _
        exact gives_after _ fun _ => gives_pure hinner
      | leftBracket =>
        exact entailsWhere_of_gives (gives_after advance fun _ => gives_after _ fun elements =>
          gives_after _ fun _ => gives_pure nofun)
      | _ => exact (Entails.refl _).where _
    case identifier =>
      rw [readIdentifier, readIdentifier]
      refine .after next fun following => .after advance fun token => ?_
      split_ifs
      · refine .after advance fun _ => ?_
        by_cases hname : token.text = parameter
        · rw [hname]
          have hinside := Names.agree_inside hagree.parameters hagree.definitions
          exact (((readsAlike budget).operation hinside bodyLevel).bind fun _ => .refl _).where _
        · refine entailsWhere_of_gives (gives_after _ fun body => gives_pure ?_)
          rintro ⟨_, hbody⟩
          exact hname (Node.lambda.inj hbody).1
      · exact (Entails.refl _).where _
      · exact entailsWhere_of_gives (gives_readCall_unbinding budget token)
      · exact entailsWhere_of_gives (gives_readName_unbinding token)

/-- A lambda is read alike when nothing but the definition of its parameter has changed. -/
theorem Node.ofText_lambda_of_agreeBut (hagree : names.AgreeBut parameter others) {text : String}
    {body : Node} (hread : Node.ofText names text = .ok (.lambda parameter body)) :
    Node.ofText others text = .ok (.lambda parameter body) := by
  have hreaders : EntailsWhere (Node.Binds parameter)
      (do
        let node ← readOperation (← budgetHere) names 0
        expectFinish
        return node)
      (do
        let node ← readOperation (← budgetHere) others 0
        expectFinish
        return node) := by
    refine .after budgetHere fun budget => ((bindsAlike hagree budget).operation 0).bind
      (fun node hnode => ?_) fun node _ => (Entails.refl _).where _
    exact gives_after _ fun _ => gives_pure hnode
  exact hreaders.run ⟨body, rfl⟩ hread

end Patchwork
