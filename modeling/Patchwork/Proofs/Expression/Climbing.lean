import Mathlib
import Patchwork.Proofs.Expression.Operands

/-!
# Precedence climbing

Operands with operators between them can be put together in many ways, but in one only so
that operators bind by their levels and those of one level from left to right.  Reading the
words of such a chain finds that one, however long the chain is and however it is spaced.
-/

namespace Patchwork

open Reader

/-! ## Arrangements -/

/-- Operands put together by the operators between them. -/
inductive Arrangement
  | operand (node : Node)
  | joined (operator : BinaryOperator) (left right : Arrangement)

namespace Arrangement

/-- The expression of an arrangement. -/
def node : Arrangement → Node
  | operand node => node
  | joined operator left right => .binary operator left.node right.node

/-- The first operand from left to right. -/
def first : Arrangement → Node
  | operand node => node
  | joined _ left _ => left.first

/-- The operators from left to right, each with the operand after it. -/
def others : Arrangement → List (BinaryOperator × Node)
  | operand _ => []
  | joined operator left right => left.others ++ (operator, right.first) :: right.others

/-- The level of the operator that puts an arrangement together, unless it is an operand. -/
def level? : Arrangement → Option Nat
  | operand _ => none
  | joined operator _ _ => some operator.level

/-- What an operator puts together binds at least as tightly as the operator on the left of it,
and more tightly on the right. -/
inductive Ordered : Arrangement → Prop
  | operand (node : Node) : Ordered (.operand node)
  | joined {operator : BinaryOperator} {left right : Arrangement} (hleft : left.Ordered)
    (hright : right.Ordered) (htight : ∀ level ∈ left.level?, operator.level ≤ level)
    (htighter : ∀ level ∈ right.level?, operator.level < level) :
    Ordered (.joined operator left right)

namespace Ordered

variable {arrangement : Arrangement}

/-- No operator in an arrangement binds less tightly than the one that puts it together. -/
theorem le_level (hordered : arrangement.Ordered) {bound : Nat}
    (hbound : ∀ level ∈ arrangement.level?, bound ≤ level) :
    ∀ pair ∈ arrangement.others, bound ≤ pair.1.level := by
  induction hordered with
  | operand node => exact nofun
  | @joined operator left right _ _ htight htighter ihLeft ihRight =>
    have hoperator : bound ≤ operator.level := hbound _ rfl
    rintro pair hpair
    rcases List.mem_append.mp hpair with hpair | hpair
    · exact ihLeft (fun level hlevel => Nat.le_trans hoperator (htight level hlevel)) pair hpair
    · rcases List.mem_cons.mp hpair with rfl | hpair
      · exact hoperator
      · exact ihRight (fun level hlevel =>
          Nat.le_trans hoperator (Nat.le_of_lt (htighter level hlevel))) pair hpair

theorem level_le_of_mem_left {operator : BinaryOperator} {left right : Arrangement}
    (hordered : (Arrangement.joined operator left right).Ordered)
    {pair : BinaryOperator × Node} (hpair : pair ∈ left.others) :
    operator.level ≤ pair.1.level := by
  cases hordered with
  | joined hleft _ htight _ => exact hleft.le_level htight pair hpair

theorem level_lt_of_mem_right {operator : BinaryOperator} {left right : Arrangement}
    (hordered : (Arrangement.joined operator left right).Ordered)
    {pair : BinaryOperator × Node} (hpair : pair ∈ right.others) :
    operator.level < pair.1.level := by
  cases hordered with
  | joined _ hright _ htighter => exact hright.le_level htighter pair hpair

variable {operator other : BinaryOperator} {left right left' right' : Arrangement}

/-- An operator that stands on the left of another one is not below it in one arrangement and
above it in another. -/
theorem not_apart (hordered : (Arrangement.joined operator left right).Ordered)
    (hother : (Arrangement.joined other left' right').Ordered) {after behind : Node}
    {front between back : List (BinaryOperator × Node)}
    (hleft : left'.others = front ++ (operator, after) :: between)
    (hright : right.others = between ++ (other, behind) :: back) : False := by
  have hmem : (operator, after) ∈ left'.others := by simp [hleft]
  have hmemRight : (other, behind) ∈ right.others := by simp [hright]
  exact Nat.not_lt_of_le (hother.level_le_of_mem_left hmem)
    (hordered.level_lt_of_mem_right hmemRight)

/-- Ordered arrangements of the same operands are put together in the same place. -/
theorem left_others_eq (hordered : (Arrangement.joined operator left right).Ordered)
    (hother : (Arrangement.joined other left' right').Ordered)
    (hothers : left.others ++ (operator, right.first) :: right.others =
      left'.others ++ (other, right'.first) :: right'.others) : left.others = left'.others := by
  rcases List.append_eq_append_iff.mp hothers with
    ⟨between, hleft, hright⟩ | ⟨between, hleft, hright⟩
  · cases between with
    | nil => rw [hleft, List.append_nil]
    | cons pair between =>
      obtain ⟨rfl, hbetween⟩ := List.cons.inj hright
      exact (hordered.not_apart hother hleft hbetween).elim
  · cases between with
    | nil => rw [hleft, List.append_nil]
    | cons pair between =>
      obtain ⟨rfl, hbetween⟩ := List.cons.inj hright
      exact (hother.not_apart hordered hleft hbetween).elim

/-- There is only one ordered arrangement of the same operands with the same operators. -/
theorem eq_of_same {arrangement other : Arrangement} (hordered : arrangement.Ordered)
    (hother : other.Ordered) (hfirst : arrangement.first = other.first)
    (hothers : arrangement.others = other.others) : arrangement = other := by
  induction hordered generalizing other with
  | operand node =>
    cases other with
    | operand node' => exact congrArg Arrangement.operand hfirst
    | joined operator left right => simp [others] at hothers
  | @joined operator left right hleft hright htight htighter ihLeft ihRight =>
    cases other with
    | operand node => simp [others] at hothers
    | joined operator' left' right' =>
      have hplace := left_others_eq (.joined hleft hright htight htighter) hother hothers
      obtain ⟨-, hrest⟩ := List.append_inj hothers (congrArg List.length hplace)
      obtain ⟨hpair, hbehind⟩ := List.cons.inj hrest
      obtain ⟨rfl, hfirstRight⟩ := Prod.mk.inj hpair
      cases hother with
      | joined hleft' hright' _ _ =>
        rw [ihLeft hleft' hfirst hplace, ihRight hright' hfirstRight hbehind]

end Ordered

end Arrangement

/-! ## Climbing -/

section

variable {names : Names}

/-- Operators, each with the operand behind it, as words. -/
def pairWords (pairs : List (BinaryOperator × Operand names)) : List Word :=
  pairs.flatMap fun pair => .operator pair.1.symbol :: pair.2.words

theorem pairWords_append (pairs more : List (BinaryOperator × Operand names)) :
    pairWords (pairs ++ more) = pairWords pairs ++ pairWords more :=
  List.flatMap_append

/-- Operators, each with the expression of the operand behind it. -/
def pairNodes (pairs : List (BinaryOperator × Operand names)) : List (BinaryOperator × Node) :=
  pairs.map fun pair => (pair.1, pair.2.node)

/-- From an arrangement, reading at a level takes some of the operators behind it, with their
operands, and makes another arrangement. -/
structure Climbs (level : Nat) (left : Arrangement) (pairs : List (BinaryOperator × Operand names))
    (arrangement : Arrangement) (taken rest : List (BinaryOperator × Operand names)) : Prop where
  split : pairs = taken ++ rest
  stops : ∀ pair ∈ rest.head?, pair.1.level < level
  ordered : arrangement.Ordered
  bound : ∀ tight ∈ arrangement.level?, level ≤ tight
  first : arrangement.first = left.first
  others : arrangement.others = left.others ++ pairNodes taken
  reads : ∀ (budget : Nat) (word : Word) (tail : List Word),
    16 * (pairWords pairs).length + 32 ≤ budget → word.closes = true →
      Reads (readOperations budget names level left.node) (pairWords taken)
        (pairWords rest ++ word :: tail) arrangement.node

/-- Every operator and every closing word ends the operand in front of it. -/
theorem exists_endsOperand (pairs : List (BinaryOperator × Operand names)) {word : Word}
    (hword : word.closes = true) (tail : List Word) :
    ∃ first others, pairWords pairs ++ word :: tail = first :: others ∧ first.EndsOperand := by
  cases pairs with
  | nil => exact ⟨word, tail, rfl, Word.endsOperand_of_closes hword⟩
  | cons pair pairs => exact ⟨_, _, rfl, Word.endsOperand_operator pair.1⟩

namespace Climbs

variable {level : Nat} {left : Arrangement} {pairs : List (BinaryOperator × Operand names)}

/-- Nothing is taken where there is no operator of the level. -/
theorem of_stops (hstops : ∀ pair ∈ pairs.head?, pair.1.level < level) (hordered : left.Ordered)
    (hbound : ∀ tight ∈ left.level?, level ≤ tight) : Climbs level left pairs left [] pairs where
  split := rfl
  stops := hstops
  ordered := hordered
  bound := hbound
  first := rfl
  others := (List.append_nil _).symm
  reads budget word tail hbudget hword := by
    cases pairs with
    | nil => exact readOperations_stops (by omega) (Word.not_operator_of_closes hword)
    | cons pair pairs =>
      obtain ⟨budget, rfl⟩ := Nat.exists_eq_add_of_le' (by omega : 1 ≤ budget)
      have hlevel : (Connective.operator pair.1).level < level := hstops pair rfl
      rw [readOperations]
      refine .current rfl fun token htoken => ?_
      rw [Connective.ofToken?_symbol htoken]
      simp only [hlevel, if_true]
      exact .pure _ _

/-- An operator of the level is taken with what binds more tightly behind it, and then the
operators of the level behind that. -/
theorem cons {operator : BinaryOperator} {operand : Operand names} {right arrangement : Arrangement}
    {taken rest more last : List (BinaryOperator × Operand names)}
    (hright : Climbs (operator.level + 1) (.operand operand.node) pairs right taken rest)
    (hmore : Climbs level (.joined operator left right) rest arrangement more last)
    (hlevel : level ≤ operator.level) :
    Climbs level left ((operator, operand) :: pairs) arrangement
      ((operator, operand) :: (taken ++ more)) last where
  split := by rw [hright.split, hmore.split, List.cons_append, List.append_assoc]
  stops := hmore.stops
  ordered := hmore.ordered
  bound := hmore.bound
  first := hmore.first
  others := by
    rw [hmore.others, Arrangement.others, hright.first, hright.others]
    simp [pairNodes, Arrangement.first, Arrangement.others]
  reads budget word tail hbudget hword := by
    have htaken : pairWords ((operator, operand) :: (taken ++ more)) =
        .operator operator.symbol :: ((operand.words ++ pairWords taken) ++ pairWords more) := by
      simp [pairWords]
    have hrest : pairWords rest ++ word :: tail =
        pairWords more ++ (pairWords last ++ word :: tail) := by
      rw [hmore.split, pairWords_append, List.append_assoc]
    have hpairs : (pairWords pairs).length =
        (pairWords taken).length + (pairWords rest).length := by
      rw [hright.split, pairWords_append, List.length_append]
    have hwords : (pairWords ((operator, operand) :: pairs)).length =
        operand.words.length + (pairWords pairs).length + 1 := by
      simp [pairWords]
    rw [hwords] at hbudget
    obtain ⟨budget, rfl⟩ := Nat.exists_eq_add_of_le' (by omega : 2 ≤ budget)
    -- The right operand ends where an operator does not bind more tightly.
    have hoperand : Reads (readOperation (budget + 1) names (operator.level + 1))
        (operand.words ++ pairWords taken) (pairWords more ++ (pairWords last ++ word :: tail))
        right.node := by
      obtain ⟨first, others, hfirst, hends⟩ := exists_endsOperand pairs hword tail
      have hbehind : pairWords taken ++ (pairWords rest ++ word :: tail) = first :: others := by
        rw [← hfirst, hright.split, pairWords_append, List.append_assoc]
      rw [readOperation, ← hrest]
      refine .bind ?_ (hright.reads budget word tail (by omega) hword)
      rw [hbehind]
      exact operand.reads (by omega) hends others
    have hnot : ¬ (Connective.operator operator).level < level := Nat.not_lt_of_le hlevel
    rw [readOperations, htaken]
    refine .current rfl fun token htoken => ?_
    rw [Connective.ofToken?_symbol htoken]
    simp only [hnot, if_false]
    refine .advance (by simp) (by simp [Word.operator]) fun _ _ => ?_
    exact .bind hoperand (.bind (.pure _ _) (hmore.reads _ word tail (by omega) hword))

end Climbs

theorem exists_climbs (pairs : List (BinaryOperator × Operand names)) {level : Nat}
    {left : Arrangement} (hordered : left.Ordered) (hbound : ∀ tight ∈ left.level?, level ≤ tight)
    (hfits : ∀ pair ∈ pairs.head?, ∀ tight ∈ left.level?, pair.1.level ≤ tight) :
    ∃ arrangement taken rest, Climbs level left pairs arrangement taken rest := by
  induction hlength : pairs.length using Nat.strongRecOn generalizing pairs level left with
  | _ count ih =>
    subst hlength
    cases pairs with
    | nil => exact ⟨left, [], [], .of_stops nofun hordered hbound⟩
    | cons pair pairs =>
      obtain ⟨operator, operand⟩ := pair
      by_cases hlevel : operator.level < level
      · refine ⟨left, [], _, .of_stops ?_ hordered hbound⟩
        rintro _ ⟨⟩
        exact hlevel
      · obtain ⟨right, taken, rest, hright⟩ :
            ∃ right taken rest, Climbs (operator.level + 1) (.operand operand.node) pairs right
              taken rest :=
          ih pairs.length (Nat.lt_succ_self _) pairs (.operand operand.node) nofun nofun rfl
        have hjoined : (Arrangement.joined operator left right).Ordered :=
          .joined hordered hright.ordered (hfits _ rfl) hright.bound
        have hrest : rest.length < pairs.length + 1 := by
          rw [hright.split, List.length_append]
          omega
        obtain ⟨arrangement, more, last, hmore⟩ :
            ∃ arrangement more last, Climbs level (.joined operator left right) rest arrangement
              more last := by
          refine ih rest.length hrest rest hjoined ?_ ?_ rfl
          · rintro _ ⟨⟩
            exact Nat.le_of_not_lt hlevel
          · rintro pair hpair _ ⟨⟩
            exact Nat.le_of_lt_succ (hright.stops pair hpair)
        exact ⟨arrangement, _, last, hright.cons hmore (Nat.le_of_not_lt hlevel)⟩

end

/-! ## Chains -/

/-- Operands with operators between them. -/
structure Chain (names : Names) where
  first : Operand names
  others : List (BinaryOperator × Operand names)

namespace Chain

variable {names : Names}

def words (chain : Chain names) : List Word :=
  chain.first.words ++ pairWords chain.others

def pairText (pairs : List (BinaryOperator × Operand names)) : String :=
  pairs.foldr (fun pair behind => pair.1.symbol ++ " " ++ pair.2.text ++ behind) ""

/-- The chain with a blank after each operator and each part of an operand. -/
def text (chain : Chain names) : String :=
  chain.first.text ++ pairText chain.others

/-- An arrangement has the operands and the operators of the chain from left to right, and each
operator binds by its level. -/
structure IsArranged (chain : Chain names) (arrangement : Arrangement) : Prop where
  first : arrangement.first = chain.first.node
  others : arrangement.others = pairNodes chain.others
  ordered : arrangement.Ordered

theorem IsArranged.eq {chain : Chain names} {arrangement other : Arrangement}
    (harranged : chain.IsArranged arrangement) (hother : chain.IsArranged other) :
    other = arrangement :=
  hother.ordered.eq_of_same harranged.ordered (hother.first.trans harranged.first.symm)
    (hother.others.trans harranged.others.symm)

theorem spells_pairs (pairs : List (BinaryOperator × Operand names))
    (previous : Option TokenKind) :
    ∃ last, Scan.Spells previous (pairText pairs).toList (pairWords pairs) last [] := by
  induction pairs generalizing previous with
  | nil => exact ⟨previous, .done previous []⟩
  | cons pair pairs ih =>
    have hstart : Scan.operandMayStart (some .operator) = true := rfl
    obtain ⟨middle, hoperand⟩ := pair.2.spells hstart (pairText pairs).toList
    obtain ⟨last, hbehind⟩ := ih middle
    have hpair : Scan.Spells previous _ _ last [] := .binaryOperator pair.1 (hoperand.trans hbehind)
    refine ⟨last, ?_⟩
    simpa [pairText, pairWords, String.toList_append] using hpair

/-- With blanks everywhere, the chain is scanned as its words. -/
theorem hasWords_text (chain : Chain names) : Scan.HasWords chain.text chain.words := by
  obtain ⟨middle, hfirst⟩ := chain.first.spells (rfl : Scan.operandMayStart none = true)
    (pairText chain.others).toList
  obtain ⟨last, hothers⟩ := spells_pairs chain.others middle
  have hspells : Scan.Spells none chain.text.toList chain.words last [] := by
    rw [text, String.toList_append]
    exact hfirst.trans hothers
  obtain ⟨tokens, column, hwords, hscan⟩ := Scan.ofText_of_spells hspells
  exact ⟨tokens, column, hscan, hwords⟩

/-- A chain has one arrangement, and reading it in any spacing that leaves it its words, such as
blanks everywhere, gives the expression of that. -/
theorem ofText_chain (chain : Chain names) :
    ∃ arrangement : Arrangement, chain.IsArranged arrangement ∧
      (∀ other, chain.IsArranged other → other = arrangement) ∧
      Scan.HasWords chain.text chain.words ∧
      ∀ text, Scan.HasWords text chain.words → Node.ofText names text = .ok arrangement.node := by
  obtain ⟨arrangement, taken, rest, hclimbs⟩ :
      ∃ arrangement taken rest, Climbs 0 (.operand chain.first.node) chain.others arrangement
        taken rest :=
    exists_climbs chain.others (.operand _) nofun nofun
  obtain rfl : rest = [] := by
    cases rest with
    | nil => rfl
    | cons pair rest => exact absurd (hclimbs.stops pair rfl) (Nat.not_lt_zero _)
  have hsplit : chain.others = taken := by rw [hclimbs.split, List.append_nil]
  have harranged : chain.IsArranged arrangement :=
    ⟨hclimbs.first, by rw [hclimbs.others, hsplit]; rfl, hclimbs.ordered⟩
  refine ⟨arrangement, harranged, fun other => harranged.eq, chain.hasWords_text, ?_⟩
  rintro text ⟨tokens, column, hscan, hwords⟩
  refine Node.ofText_of_reads hscan ?_
  have hlength : tokens.length = chain.first.words.length + (pairWords chain.others).length := by
    rw [← List.length_map, hwords, words, List.length_append]
  have hfirst := chain.first.length_words_pos
  let finish : Word := ⟨.finish, ""⟩
  obtain ⟨word, tail, hword, hends⟩ :=
    exists_endsOperand chain.others (rfl : finish.closes = true) []
  have hothers := hclimbs.reads (16 * (tokens.length + 1) + 15) finish [] (by omega) rfl
  rw [← hsplit] at hothers
  rw [hwords, words, readingBudget, readOperation]
  refine .bind ?_ hothers
  rw [hword]
  exact chain.first.reads (by omega) hends tail

end Chain

section

open Node (noNames)

theorem ofText_amounts : Node.ofText noNames "[4, 5]" =
    .ok (.array [.literal (.integer 4), .literal (.integer 5)]) := by
  cbv

def amounts : Primary noNames where
  text := "[4, 5]"
  node := .array [.literal (.integer 4), .literal (.integer 5)]
  reads := ofText_amounts
  inside := by decide +kernel

theorem ofText_total : Node.ofText noNames "(1 + -2)" =
    .ok (.binary .plus (.literal (.integer 1)) (.literal (.integer (-2)))) := by
  cbv

def total : Primary noNames where
  text := "(1 + -2)"
  node := .binary .plus (.literal (.integer 1)) (.literal (.integer (-2)))
  reads := ofText_total
  inside := by decide +kernel

theorem ofText_largest : Node.ofText noNames "Max([2])" =
    .ok (.call .max [.array [.literal (.integer 2)]]) := by
  cbv

def largest : Primary noNames where
  text := "Max([2])"
  node := .call .max [.array [.literal (.integer 2)]]
  reads := ofText_largest
  inside := by decide +kernel

theorem ofText_enabled : Node.ofText noNames "true" = .ok (.literal (.boolean true)) := by
  cbv

def enabled : Primary noNames where
  text := "true"
  node := .literal (.boolean true)
  reads := ofText_enabled
  inside := by decide +kernel

def place : Phrase noNames where
  text := "1"
  node := .literal (.integer 1)
  reads := by cbv

theorem words_amounts :
    amounts.words = [.leftBracket, ⟨.int 4, "4"⟩, .comma, ⟨.int 5, "5"⟩, .rightBracket] := by
  cbv

/-- An array with a sign and an index, an expression in parentheses, a call and a literal with a
sign. -/
def quantities : Chain noNames where
  first := {
    signs := [.negative]
    primary := amounts
    positions := [place]
    unnamed := fun _ => by rw [words_amounts]; nofun }
  others := [(.times, total.alone), (.minus, largest.alone),
    (.less, { enabled.alone with signs := [.not] })]

theorem Chain.ofText_quantities :
    Node.ofText noNames "-[4, 5][1]*(1 + -2)- Max([2]) <!true" = .ok
      (.binary .less
        (.binary .minus
          (.binary .times
            (.unary .negative (.index (.array [.literal (.integer 4), .literal (.integer 5)])
              (.literal (.integer 1))))
            (.binary .plus (.literal (.integer 1)) (.literal (.integer (-2)))))
          (.call .max [.array [.literal (.integer 2)]]))
        (.unary .not (.literal (.boolean true)))) := by
  obtain ⟨arrangement, -, hunique, -, hreads⟩ := ofText_chain quantities
  let product : Arrangement :=
    .joined .times (.operand quantities.first.node) (.operand total.node)
  let difference : Arrangement := .joined .minus product (.operand largest.node)
  have hproduct : product.Ordered := .joined (.operand _) (.operand _) nofun nofun
  have hdifference : difference.Ordered :=
    .joined hproduct (.operand _) (by rintro _ ⟨⟩; decide) nofun
  have hcomparison : (Arrangement.joined .less difference
      (.operand (.unary .not enabled.node))).Ordered :=
    .joined hdifference (.operand _) (by rintro _ ⟨⟩; decide) nofun
  obtain rfl := hunique _ ⟨rfl, rfl, hcomparison⟩
  refine hreads _ ⟨[⟨.operator, "-", 0⟩, ⟨.leftBracket, "[", 1⟩, ⟨.int 4, "4", 2⟩,
    ⟨.comma, ",", 3⟩, ⟨.int 5, "5", 5⟩, ⟨.rightBracket, "]", 6⟩, ⟨.leftBracket, "[", 7⟩,
    ⟨.int 1, "1", 8⟩, ⟨.rightBracket, "]", 9⟩, ⟨.operator, "*", 10⟩, ⟨.leftParen, "(", 11⟩,
    ⟨.int 1, "1", 12⟩, ⟨.operator, "+", 14⟩, ⟨.int (-2), "-2", 16⟩, ⟨.rightParen, ")", 18⟩,
    ⟨.operator, "-", 19⟩, ⟨.identifier, "Max", 21⟩, ⟨.leftParen, "(", 24⟩,
    ⟨.leftBracket, "[", 25⟩, ⟨.int 2, "2", 26⟩, ⟨.rightBracket, "]", 27⟩, ⟨.rightParen, ")", 28⟩,
    ⟨.operator, "<", 30⟩, ⟨.operator, "!", 31⟩, ⟨.bool true, "true", 32⟩], 36, ?_, ?_⟩
  · cbv
  · cbv

end

end Patchwork
