import Patchwork.Proofs.Expression.Closure
import Patchwork.Proofs.Provenance.Runs
import Patchwork.Proofs.Trails.Lines

/-!
# Expressions that are read are sound

What reading gives is well formed, and what was checked while reading need not be checked
again: whatever produces a group gives a group, and no evaluation fails because an argument
is missing or because there is no group on the left of an arrow.
-/

namespace Patchwork

open Eval

theorem Node.obeys_of_read {names : Names} {text : String} {node : Node}
    (hread : Node.ofText names text = .ok node ∨ Node.ofCommandText names text = .ok node)
    (hnames : names.environment.Obeys Rules.free) : node.Obeys Rules.free := by
  have hclosed := obeys_readingClosed hnames
  rcases hread with hread | hread
  · exact Node.holds_ofText hclosed hread fun _ _ => trivial
  · exact Node.holds_ofCommandText hclosed hread fun _ _ => trivial

/-- After any lines of a run everything that is defined has been read, and the statement that
a further line is read as fails with ordinary faults only. -/
theorem afterLines_ordinary (patcher : Patcher) (mod : Mod) (lines : List String) :
    (patcher.afterLines mod lines).environment.Obeys Rules.free ∧
      ∀ line statement fault after,
        Statement.ofLine (patcher.afterLines mod lines).names line = .ok statement →
        statement.execute.run (patcher.afterLines mod lines) = (.error fault, after) →
        fault.Ordinary := by
  have hobeys : (patcher.afterLines mod lines).Obeys Rules.free :=
    (afterLines_leads (Nat.zero_le _) mod lines [] (Rules.free_permits _ _)).1
  refine ⟨hobeys.environment, fun line statement fault after hread hfails => ?_⟩
  have hstatement := Patcher.obeys_ofLine hobeys hread fun _ _ => trivial
  exact (Statement.keeps_execute hobeys hstatement).meets.ordinary fault (by rw [hfails])

/-- An expression that is read is well formed.  Whenever an expression that produces a group
gives something, in a lambda or not, it gives a group.  Against what has been read an
expression that has been read never fails because an argument is missing or because there is
no group on the left of an arrow, and neither does any line of any run. -/
theorem read_wellFormed_and_ordinary {names : Names} {text : String} {node : Node}
    (hread : Node.ofText names text = .ok node ∨ Node.ofCommandText names text = .ok node) :
    node.WellFormed names.parameters ∧
      (∀ (part : Node) depth setting scope record before value after,
        part.producesGroup = true →
        (part.evaluate setting record).Yields before value after ∨
          (part.evaluateIn (deeperAt setting depth) setting scope record).Yields before value
            after →
        value.IsGroup) ∧
      (∀ setting record before fault after, names.environment.Obeys Rules.free →
        setting.environment.Obeys Rules.free →
        (node.evaluate setting record).run before = (.error fault, after) → fault.Ordinary) ∧
      ∀ patcher mod lines, (Patcher.afterLines patcher mod lines).environment.Obeys Rules.free ∧
        ∀ line statement fault after,
          Statement.ofLine (Patcher.afterLines patcher mod lines).names line = .ok statement →
          statement.execute.run (Patcher.afterLines patcher mod lines) = (.error fault, after) →
          fault.Ordinary := by
  refine ⟨?_, ?_, ?_, afterLines_ordinary⟩
  · have hclosed := wellFormed_readingClosed names.environment
    exact hread.elim (Node.holds_ofText hclosed) (Node.holds_ofCommandText hclosed)
  · rintro part depth setting scope record before value after hproduces (hyields | hyields)
    · exact Node.isGroup_evaluateWith hproduces hyields
    · exact Node.isGroup_evaluateIn hproduces hyields
  · intro setting record before fault after hnames henvironment hfails
    have hnode := Node.obeys_of_read hread hnames
    have hkept := Node.kept_evaluate henvironment hnode record
    exact (hkept.meets before (Nat.zero_le _)).ordinary fault (by rw [hfails])

/-- The patcher once the weapons have been looked up and cloned. -/
def forge : Patcher :=
  armourer.afterLines sharper forging

/-- A line that clones the weapon and adds one to each amount in the recipes of the clones. -/
def enlarging : String :=
  "Clone(arms, 2) -> EditExtraData(\"recipe\", [amount => amount + 1])"

theorem read_enlarging_wellFormed_and_ordinary :
    (Node.ofText forge.names enlarging).isOk = true ∧
      ∀ node, Node.ofText forge.names enlarging = .ok node → node.WellFormed [] ∧
        ∀ record before fault after,
          (node.evaluate forge.setting record).run before = (.error fault, after) →
            fault.Ordinary := by
  refine ⟨by decide +kernel, fun node hread => ?_⟩
  obtain ⟨hformed, -, hordinary, hrun⟩ := read_wellFormed_and_ordinary (Or.inl hread)
  have hforge : forge.environment.Obeys Rules.free := (hrun armourer sharper forging).1
  have hsame : ∀ patcher : Patcher, patcher.environment.Obeys Rules.free →
      patcher.names.environment.Obeys Rules.free ∧
        patcher.setting.environment.Obeys Rules.free := fun _ hobeys => ⟨hobeys, hobeys⟩
  obtain ⟨hnames, hsetting⟩ := hsame forge hforge
  exact ⟨hformed, fun record before fault after =>
    hordinary forge.setting record before fault after hnames hsetting⟩

end Patchwork
