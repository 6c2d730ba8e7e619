import Patchwork.Proofs.Environments
import Patchwork.Proofs.Evaluation.Visits

/-!
# Evaluations that end

Tables that refer to each other in a circle can be looked up without end.  Where the tables
have ranks, so that an entry names tables of lower rank only, and where no closure is hidden
in a definition or in a literal, every evaluation ends.  How deep it goes is bounded by the
sizes of the expression and of the table entries and by the ranks: whatever is evaluated for
the sake of an expression costs less than the expression itself.
-/

namespace Patchwork

open Eval

/-! ## What an expression costs -/

/-- The highest of some numbers, or zero if there are none. -/
def highest (numbers : List Nat) : Nat :=
  numbers.max?.getD 0

theorem le_highest {number : Nat} {numbers : List Nat} (hnumber : number ∈ numbers) :
    number ≤ highest numbers :=
  List.le_max?_getD_of_mem hnumber

theorem highest_le {bound : Nat} {numbers : List Nat}
    (hnumbers : ∀ number ∈ numbers, number ≤ bound) : highest numbers ≤ bound := by
  rw [highest]
  cases hmax : numbers.max? with
  | none => exact Nat.zero_le bound
  | some number => exact hnumbers number (List.max?_eq_some_iff.mp hmax).1

/-- There is no closure in the value. -/
def Value.HoldsNoClosure (value : Value) : Prop :=
  value.LeadsTo (fun _ => False) fun _ => True

/-- There is no closure in any literal inside the expression. -/
def Node.HoldsNoClosure (node : Node) : Prop :=
  ∀ value, .literal value ∈ node.expressions → value.HoldsNoClosure

mutual

/-- The tables in a value. -/
def Value.tables : Value → List String
  | .array items => tablesInItems items
  | .table name => [name]
  | _ => []

/-- The tables in the elements of an array. -/
def tablesInItems : List Value → List String
  | [] => []
  | item :: rest => item.tables ++ tablesInItems rest

end

namespace Environment

variable (environment : Environment) (rank : String → Nat)

/-- The tables that an expression stands for by itself. -/
def tablesAt : Node → List String
  | .literal value => value.tables
  | .tableName name => (environment.tableOrDefinition name).tables
  | _ => []

/-- The tables named anywhere in an expression, in the bodies of its lambdas too. -/
def tablesIn (node : Node) : List String :=
  (node.expressions.flatMap environment.tablesAt).filter environment.tables.has

/-- The entries of tables name tables of lower rank only. -/
def Ranked : Prop :=
  ∀ table key node, environment.tableEntry table key = .ok node →
    ∀ named ∈ environment.tablesIn node, rank named < rank table

theorem ranked_of_forall {environment : Environment} {rank : String → Nat}
    (hranks : ∀ table ∈ environment.tables, ∀ entry ∈ table.2,
      ∀ named ∈ environment.tablesIn entry.2, rank named < rank table.1) :
    environment.Ranked rank := by
  intro table key node hentry
  unfold tableEntry at hentry
  split at hentry
  · cases hentry
  · rename_i entries htable
    split at hentry <;> cases hentry
    rename_i hfound
    obtain ⟨here, hinner⟩ := Entries.mem_of_get? hfound
    exact hranks (table, entries) (Entries.mem_of_get?_self htable) (here, node) hinner

/-- The size of the largest table entry. -/
def largestEntry : Nat :=
  highest ((environment.tables.flatMap Prod.snd).map fun entry => entry.2.size)

/-- What the entries of all tables up to a rank cost. -/
def costOfTables (rank : Nat) : Nat :=
  rank * (environment.largestEntry + 1)

/-- What an expression costs: its size, and what the tables cost that it names. -/
def cost (node : Node) : Nat :=
  node.size +
    environment.costOfTables (highest ((environment.tablesIn node).map fun table => rank table + 1))

end Environment

variable {environment : Environment} {rank : String → Nat} {node part body : Node}

theorem Node.HoldsNoClosure.mono (hnode : node.HoldsNoClosure)
    (hinside : part.expressions ⊆ node.expressions) : part.HoldsNoClosure :=
  fun value hvalue => hnode value (hinside hvalue)

mutual

theorem Value.HoldsNoClosure.leadsTo {tables : String → Prop} {bodies : Node → Prop} (value : Value)
    (hvalue : value.HoldsNoClosure) (htables : ∀ table ∈ value.tables, tables table) :
    value.LeadsTo bodies tables := by
  cases value with
  | array items => exact allLeadTo_of_holdsNoClosure items hvalue htables
  | closure => exact hvalue.elim
  | table name => exact htables name (List.mem_singleton_self name)
  | _ => trivial

theorem allLeadTo_of_holdsNoClosure {tables : String → Prop} {bodies : Node → Prop}
    (items : List Value) (hitems : AllLeadTo (fun _ => False) (fun _ => True) items)
    (htables : ∀ table ∈ tablesInItems items, tables table) : AllLeadTo bodies tables items := by
  cases items with
  | nil => trivial
  | cons item rest =>
    obtain ⟨hfirst, hrest⟩ := List.forall_mem_append.mp htables
    exact ⟨Value.HoldsNoClosure.leadsTo item hitems.1 hfirst,
      allLeadTo_of_holdsNoClosure rest hitems.2 hrest⟩

end

namespace Environment

theorem tablesIn_subset (hinside : part.expressions ⊆ node.expressions) :
    environment.tablesIn part ⊆ environment.tablesIn node := by
  intro table htable
  obtain ⟨hnamed, hhas⟩ := List.mem_filter.mp htable
  obtain ⟨inner, hinner, hat⟩ := List.mem_flatMap.mp hnamed
  exact List.mem_filter.mpr ⟨List.mem_flatMap.mpr ⟨inner, hinside hinner, hat⟩, hhas⟩

theorem mem_tablesIn {table : String} (hat : table ∈ environment.tablesAt node)
    (hhas : environment.tables.has table) : table ∈ environment.tablesIn node :=
  List.mem_filter.mpr ⟨List.mem_flatMap.mpr ⟨node, node.mem_expressions_self, hat⟩, hhas⟩

theorem has_of_tableEntry {table key : String}
    (hentry : environment.tableEntry table key = .ok node) : environment.tables.has table := by
  unfold tableEntry at hentry
  split at hentry
  · cases hentry
  · rename_i entries htable
    exact Option.isSome_iff_exists.mpr ⟨entries, htable⟩

theorem size_le_largestEntry {table key : String}
    (hentry : environment.tableEntry table key = .ok node) :
    node.size ≤ environment.largestEntry := by
  have hall : environment.All (fun _ => True) fun node =>
      node.size ∈ (environment.tables.flatMap Prod.snd).map fun entry => entry.2.size :=
    ⟨fun _ _ => trivial, fun table htable entry hentry =>
      List.mem_map.mpr ⟨entry, List.mem_flatMap.mpr ⟨table, htable, hentry⟩, rfl⟩⟩
  exact le_highest (hall.of_tableEntry hentry)

theorem costOfTables_le (environment : Environment) {lower higher : Nat} (hle : lower ≤ higher) :
    environment.costOfTables lower ≤ environment.costOfTables higher :=
  Nat.mul_le_mul_right _ hle

/-- A part costs less than the expression, and so does the body of a lambda. -/
theorem cost_lt (environment : Environment) (rank : String → Nat)
    (hinside : part.expressions ⊆ node.expressions) (hsize : part.size < node.size) :
    environment.cost rank part < environment.cost rank node := by
  have hheight : highest ((environment.tablesIn part).map fun table => rank table + 1) ≤
      highest ((environment.tablesIn node).map fun table => rank table + 1) :=
    highest_le fun height hheight =>
      le_highest (List.map_subset _ (tablesIn_subset hinside) hheight)
  exact Nat.add_lt_add_of_lt_of_le hsize (costOfTables_le environment hheight)

/-- A table that is named costs less than the expression that names it. -/
theorem costOfTables_lt_cost {table : String} (htable : table ∈ environment.tablesIn node) :
    environment.costOfTables (rank table + 1) < environment.cost rank node := by
  have hrank : rank table + 1 ≤
      highest ((environment.tablesIn node).map fun table => rank table + 1) :=
    le_highest (List.mem_map_of_mem htable)
  have hsize : 0 < node.size := List.length_pos_of_mem node.mem_expressions_self
  have hcost := costOfTables_le environment hrank
  unfold cost
  omega

/-- An entry costs less than its table. -/
theorem cost_lt_costOfTables (hranks : environment.Ranked rank) {table key : String}
    (hentry : environment.tableEntry table key = .ok node) :
    environment.cost rank node < environment.costOfTables (rank table + 1) := by
  have hrank : highest ((environment.tablesIn node).map fun table => rank table + 1) ≤
      rank table := by
    refine highest_le fun height hheight => ?_
    obtain ⟨named, hnamed, rfl⟩ := List.mem_map.mp hheight
    exact hranks table key node hentry named hnamed
  have hsize := size_le_largestEntry hentry
  have hcost := costOfTables_le environment hrank
  have hnext : environment.costOfTables (rank table + 1) =
      environment.costOfTables (rank table) + (environment.largestEntry + 1) :=
    Nat.succ_mul _ _
  unfold cost
  omega

end Environment

/-! ## Cheap expressions -/

/-- An expression that holds no closure and costs less than a bound. -/
def Environment.Cheap (environment : Environment) (rank : String → Nat) (bound : Nat)
    (node : Node) : Prop :=
  node.HoldsNoClosure ∧ environment.cost rank node < bound

/-- A table that does not exist, or whose entries cost less than a bound. -/
def Environment.CheapTable (environment : Environment) (rank : String → Nat) (bound : Nat)
    (table : String) : Prop :=
  environment.tables.has table → environment.costOfTables (rank table + 1) < bound

/-- A value that leads only to what costs less than a bound. -/
abbrev Environment.CheapValue (environment : Environment) (rank : String → Nat) (bound : Nat) :
    Value → Prop :=
  Value.LeadsTo (environment.Cheap rank bound) (environment.CheapTable rank bound)

theorem Environment.CheapValue.mono {lower higher : Nat} (hle : lower ≤ higher) {value : Value}
    (hvalue : environment.CheapValue rank lower value) :
    environment.CheapValue rank higher value :=
  Value.LeadsTo.mono (fun _ hbody => ⟨hbody.1, Nat.lt_of_lt_of_le hbody.2 hle⟩)
    (fun _ htable hhas => Nat.lt_of_lt_of_le (htable hhas) hle) value hvalue

/-- There is no closure in what is defined, nor in a literal of a table entry. -/
abbrev Environment.HoldsNoClosure (environment : Environment) : Prop :=
  environment.All Value.HoldsNoClosure Node.HoldsNoClosure

theorem Environment.cheapValue_of_tablesAt {value : Value} (hvalue : value.HoldsNoClosure)
    (hat : value.tables = environment.tablesAt node) :
    environment.CheapValue rank (environment.cost rank node) value := by
  refine Value.HoldsNoClosure.leadsTo value hvalue fun table htable hhas => ?_
  rw [hat] at htable
  exact costOfTables_lt_cost (mem_tablesIn htable hhas)

/-- Whatever an expression leads to by itself costs less than the expression. -/
theorem Node.leadsTo_of_holdsNoClosure (rank : String → Nat)
    (henvironment : environment.HoldsNoClosure) (hnode : node.HoldsNoClosure) :
    node.LeadsTo (environment.Cheap rank (environment.cost rank node))
      (environment.CheapTable rank (environment.cost rank node)) environment where
  literal := by
    rintro value rfl
    exact Environment.cheapValue_of_tablesAt (hnode value List.mem_cons_self) rfl
  named := by
    rintro name rfl
    have hvalue := henvironment.tableOrDefinition (fun _ => trivial) name
    exact Environment.cheapValue_of_tablesAt hvalue rfl
  lambda := by
    rintro parameter body rfl
    have hinside : body.expressions ⊆ (Node.lambda parameter body).expressions :=
      fun _ hinner => List.mem_cons_of_mem _ hinner
    exact ⟨hnode.mono hinside, Environment.cost_lt environment rank hinside (Nat.lt_succ_self _)⟩

/-! ## Evaluation to a depth -/

/-- Evaluation in which expressions may be nested so deep in one another, and something else
is done below. -/
def Visits.nested (setting : Setting) (bottom : Visits) : (depth : Nat) → Visits
  | 0 => bottom
  | depth + 1 =>
    let visits := Visits.nested setting bottom depth
    ⟨Node.visit visits visits.deeper setting, Node.visitIn visits visits.deeper setting⟩

/-- The steps that lead one level deeper when so many levels are left, and something else is
done below. -/
def Deeper.nested (setting : Setting) (bottom : Deeper) : (levels : Nat) → Deeper
  | 0 => bottom
  | levels + 1 => (Visits.ofParts (Deeper.nested setting bottom levels) setting).deeper

theorem deeperAt_eq_nested (setting : Setting) (levels : Nat) :
    deeperAt setting levels = Deeper.nested setting (deeperAt setting 0) levels := by
  induction levels with
  | zero => rfl
  | succ levels ih => rw [deeperAt_succ, ih, Deeper.nested]

/-- A scope in which nothing leads anywhere. -/
abbrev Scope.IsPlain (scope : Scope) : Prop :=
  scope.LeadsTo (fun _ => False) fun _ => False

/-- Evaluated in two ways, an expression comes to the same and gives what costs less than the
expression. -/
structure Visits.SameFor (environment : Environment) (rank : String → Nat) (node : Node)
    (visits visits' : Visits) : Prop where
  plain : ∀ record, Coincide (environment.CheapValue rank (environment.cost rank node))
    (visits.plain node record) (visits'.plain node record)
  inScope : ∀ scope record, scope.IsPlain →
    Coincide (environment.CheapValue rank (environment.cost rank node))
      (visits.inScope scope node record) (visits'.inScope scope node record)

theorem Scope.IsPlain.leadsTo {bodies : Node → Prop} {tables : String → Prop} {scope : Scope}
    (hscope : scope.IsPlain) : scope.LeadsTo bodies tables :=
  fun name value hvalue =>
    Value.LeadsTo.mono (fun _ => False.elim) (fun _ => False.elim) value (hscope name value hvalue)

theorem Scope.isPlain_single (name : String) {value : Value} (hdata : value.Data) :
    Scope.IsPlain [(name, value)] := by
  intro other found hfound
  obtain ⟨here, hmem⟩ := Entries.mem_of_get? hfound
  cases List.mem_singleton.mp hmem
  exact hdata.leadsTo

/-- Closures are called alike where their bodies are evaluated alike. -/
theorem Visits.call_eq {visits visits' : Visits} {closure : Closure} {values : List Value}
    (hvalues : AllData values)
    (hbody : Visits.SameFor environment rank closure.body visits visits') :
    visits'.deeper.call closure values = visits.deeper.call closure values := by
  unfold Visits.deeper
  dsimp only
  split
  · rename_i value
    have hscope := Scope.isPlain_single closure.parameter hvalues.1
    rw [(hbody.inScope _ closure.record hscope).same]
  · rfl

section

variable {setting : Setting} {bottom : Visits} {last : Deeper} {depth levels : Nat}
variable (henvironment : setting.environment.HoldsNoClosure)
  (hranks : setting.environment.Ranked rank)

include henvironment hranks

/-- Below a bound on what an expression costs, nothing depends on what is done at the
bottom. -/
theorem sameBelow_of_cheap (last : Deeper)
    (hcheap : ∀ node, node.HoldsNoClosure → setting.environment.cost rank node ≤ depth →
      ∀ levels, setting.environment.cost rank node ≤ levels →
        Visits.SameFor setting.environment rank node (Visits.nested setting bottom depth)
          (Visits.ofParts (Deeper.nested setting last levels) setting))
    {bound : Nat} (hdepth : bound ≤ depth + 1) (hlevels : bound ≤ levels) :
    Deeper.SameBelow (setting.environment.Cheap rank bound)
      (setting.environment.CheapTable rank bound) (Visits.nested setting bottom depth).deeper
      (Deeper.nested setting last levels) setting setting where
  repository := rfl
  tables_eq := rfl
  entry := by
    intro table key node record htable hentry
    have hcost := Environment.cost_lt_costOfTables hranks hentry
    have hbound := htable (Environment.has_of_tableEntry hentry)
    obtain ⟨left, rfl⟩ : ∃ left, levels = left + 1 := Nat.exists_eq_succ_of_ne_zero (by omega)
    have hsame := hcheap node (henvironment.of_tableEntry hentry) (by omega) left (by omega)
    exact (hsame.plain record).mono fun _ => Environment.CheapValue.mono (by omega)
  call := by
    intro closure values hbody hvalues
    obtain ⟨hclosure, hcost⟩ := hbody
    obtain ⟨left, rfl⟩ : ∃ left, levels = left + 1 := Nat.exists_eq_succ_of_ne_zero (by omega)
    exact Visits.call_eq hvalues (hcheap closure.body hclosure (by omega) left (by omega))

/-- An expression that costs no more than the depth is evaluated to the end. -/
theorem sameFor_nested (hnode : node.HoldsNoClosure)
    (hdepth : setting.environment.cost rank node ≤ depth)
    (hlevels : setting.environment.cost rank node ≤ levels) :
    Visits.SameFor setting.environment rank node (Visits.nested setting bottom depth)
      (Visits.ofParts (Deeper.nested setting last levels) setting) := by
  induction depth generalizing node levels with
  | zero =>
    have hsize : 0 < node.size := List.length_pos_of_mem node.mem_expressions_self
    unfold Environment.cost at hdepth
    omega
  | succ depth ih =>
    have hdeeper := sameBelow_of_cheap henvironment hranks last
      (fun node hnode hdepth levels hlevels => ih hnode hdepth hlevels) hdepth hlevels
    have hleads := Node.leadsTo_of_holdsNoClosure rank henvironment hnode
    -- A part costs less, so it is evaluated to the end with one less.
    have hparts : ∀ part ∈ node.parts, Visits.SameFor setting.environment rank part
        (Visits.nested setting bottom depth)
        (Visits.ofParts (Deeper.nested setting last levels) setting) ∧
        setting.environment.cost rank part ≤ setting.environment.cost rank node := by
      intro part hpart
      have hinside := Node.expressions_subset_of_mem_parts hpart
      have hcost := Environment.cost_lt setting.environment rank hinside
        (Node.size_lt_of_mem_parts hpart)
      exact ⟨ih (hnode.mono hinside) (by omega) (by omega), Nat.le_of_lt hcost⟩
    have hplain : ∀ part ∈ node.parts, ∀ record, Coincide
        (setting.environment.CheapValue rank (setting.environment.cost rank node))
        ((Visits.nested setting bottom depth).plain part record)
        (part.evaluateWith (Deeper.nested setting last levels) setting record) :=
      fun part hpart record => ((hparts part hpart).1.plain record).mono
        fun _ => Environment.CheapValue.mono (hparts part hpart).2
    constructor
    case plain =>
      intro record
      change Coincide _ _ (node.evaluateWith _ setting record)
      rw [Node.evaluateWith_eq_visit]
      exact Node.visit_coincide hdeeper hleads (fun _ _ => rfl) hplain
    case inScope =>
      intro scope record hscope
      have hinScope : ∀ part ∈ node.parts, ∀ record, Coincide
          (setting.environment.CheapValue rank (setting.environment.cost rank node))
          ((Visits.nested setting bottom depth).inScope scope part record)
          (part.evaluateIn (Deeper.nested setting last levels) setting scope record) :=
        fun part hpart record => ((hparts part hpart).1.inScope scope record hscope).mono
          fun _ => Environment.CheapValue.mono (hparts part hpart).2
      change Coincide _ _ (node.evaluateIn _ setting scope record)
      rw [Node.evaluateIn_eq_visitIn]
      exact Node.visitIn_coincide hdeeper hscope.leadsTo hleads (fun _ _ => rfl) hplain hinScope

/-- Evaluation to the depth of what an expression costs is evaluation. -/
theorem evaluateWith_nested_eq (hnode : node.HoldsNoClosure)
    (hdepth : setting.environment.cost rank node ≤ depth)
    (hlevels : setting.environment.cost rank node ≤ levels) (bottom : Visits) (last : Deeper) :
    node.evaluateWith (Deeper.nested setting last levels) setting =
      (Visits.nested setting bottom depth).plain node :=
  funext fun record => ((sameFor_nested henvironment hranks hnode hdepth hlevels).plain record).same

/-- Where no definition and no literal holds a closure and the tables have ranks, every
evaluation ends, with a value or a fault.  It never nests more expressions in one another than
the expression costs, nor more tables and closures: what would be done deeper down does not
matter. -/
theorem evaluation_ends (hnode : node.HoldsNoClosure) :
    ∃ evaluation : Argument,
      (∀ depth, setting.environment.cost rank node ≤ depth → ∀ bottom,
        (Visits.nested setting bottom depth).plain node = evaluation) ∧
      (∀ levels, setting.environment.cost rank node ≤ levels → ∀ last,
        node.evaluateWith (Deeper.nested setting last levels) setting = evaluation) ∧
      (setting.environment.cost rank node ≤ nestingLimit → node.evaluate setting = evaluation) := by
  let anchor := Visits.ofParts (deeperAt setting 0) setting
  have hlevels : ∀ levels, setting.environment.cost rank node ≤ levels → ∀ last,
      node.evaluateWith (Deeper.nested setting last levels) setting =
        (Visits.nested setting anchor (setting.environment.cost rank node)).plain node :=
    fun levels hlevels last =>
      evaluateWith_nested_eq henvironment hranks hnode (Nat.le_refl _) hlevels anchor last
  refine ⟨_, fun depth hdepth bottom => ?_, hlevels, fun hlimit => ?_⟩
  · have heq := evaluateWith_nested_eq henvironment hranks hnode hdepth (Nat.le_refl _) bottom
      (deeperAt setting 0)
    exact heq.symm.trans (hlevels _ (Nat.le_refl _) _)
  · unfold Node.evaluate
    rw [deeperAt_eq_nested]
    exact hlevels nestingLimit hlimit _

end

/-! ## Tables that refer to tables -/

/-- Two tables, of which the second one refers to the first one. -/
def Environment.priced : Environment :=
  (({} : Environment).setTableEntry "prices" "iron" (.literal (.integer 3))).setTableEntry
    "costs" "sword" (.binary .times (.index (.tableName "prices") (.literal (.string "iron")))
      (.literal (.integer 2)))

/-- The costs of a sword. -/
def Node.swordCosts : Node :=
  .index (.tableName "costs") (.literal (.string "sword"))

theorem Node.holdsNoClosure_of_forall
    (hliterals : ∀ inner ∈ node.expressions, match inner with
      | .literal value => value.Data
      | _ => True) : node.HoldsNoClosure :=
  fun value hvalue => Value.Data.leadsTo value (hliterals _ hvalue)

/-- The costs are looked up, and the price in them. -/
theorem evaluation_ends_priced :
    ∃ evaluation : Argument,
      (∀ bottom, (Visits.nested ⟨Environment.priced, {}⟩ bottom 15).plain Node.swordCosts =
        evaluation) ∧
      Node.swordCosts.evaluate ⟨Environment.priced, {}⟩ = evaluation := by
  let setting : Setting := ⟨Environment.priced, {}⟩
  have henvironment : setting.environment.HoldsNoClosure := by
    refine (Environment.All.empty.setTableEntry ?_ _ _).setTableEntry ?_ _ _
    all_goals exact Node.holdsNoClosure_of_forall (by simp [Node.expressions, Value.Data])
  have hranks : setting.environment.Ranked fun table => if table = "costs" then 1 else 0 :=
    Environment.ranked_of_forall (by decide)
  have hnode : Node.swordCosts.HoldsNoClosure :=
    Node.holdsNoClosure_of_forall (by simp [Node.swordCosts, Node.expressions, Value.Data])
  have hcost : setting.environment.cost (fun table => if table = "costs" then 1 else 0)
      Node.swordCosts = 15 := by decide
  obtain ⟨evaluation, hdepth, -, hlimit⟩ := evaluation_ends henvironment hranks hnode
  exact ⟨evaluation, hdepth 15 (Nat.le_of_eq hcost), hlimit (by rw [hcost]; decide)⟩

end Patchwork
