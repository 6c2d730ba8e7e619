import Patchwork.Proofs.Expression.Pipes
import Patchwork.Proofs.Expression.Queries
import Patchwork.Proofs.Runs.Bindings
import Patchwork.Proofs.Runs.Outcomes

/-!
# The names a script defines

A line defines the name on its left side and, if it is an extraction, the name of the group it
takes from.  Both are made of word characters, so whatever a script has defined, in whatever order
and with whatever failures, has a name that is made of word characters.  An expression can refer to
it by that name if the name starts with a letter and is no truth value, and by no other name.
-/

namespace Patchwork

open Agree.Computations (run_bind)

/-- A name that a line can define: one word character or more, and nothing else. -/
structure IsDefinable (name : String) : Prop where
  some : name ≠ ""
  all : ∀ char ∈ name.toList, Text.isWord char = true

theorem isDefinable_ofList {chars : List Char} (hsome : chars ≠ [])
    (hall : ∀ char ∈ chars, Text.isWord char = true) : IsDefinable (String.ofList chars) where
  some hempty := hsome (by rw [← String.toList_ofList (l := chars), hempty]; rfl)
  all := by rwa [String.toList_ofList]

/-- Both sides of a definition's operator in a line, put together again. -/
theorem Statement.toList_sides {operator : List Char} {line : String}
    (hoccurs : Text.occursIn operator line.toList = true) :
    (sides operator line).1.toList ++ operator ++ (sides operator line).2.toList =
      line.toList := by
  obtain ⟨⟨left, right⟩, hbreak⟩ := Option.isSome_iff_exists.mp hoccurs
  rw [sides, hbreak]
  simp [Text.eq_append_of_breakOn? hbreak]

namespace Target

theorem isDefinable_of_tableEntry? {chars : List Char} {target : Target}
    (hentry : tableEntry? chars = some target) : IsDefinable target.name := by
  unfold tableEntry? at hentry
  dsimp only at hentry
  split at hentry
  · rename_i first others rest hname hrest
    split at hentry
    · cases hentry
      exact isDefinable_ofList (by rw [hname]; exact List.cons_ne_nil _ _)
        (Scan.mem_takeWhile chars)
    · cases hentry
  · cases hentry

theorem isDefinable_of_ofText {text : String} {target : Target} (hread : ofText text = .ok target) :
    IsDefinable target.name := by
  unfold ofText at hread
  dsimp only at hread
  split at hread
  · rename_i found hentry
    cases hread
    exact isDefinable_of_tableEntry? hentry
  · split_ifs at hread with hword
    cases hread
    rw [Bool.and_eq_true, Bool.not_eq_true', List.isEmpty_eq_false_iff, List.all_eq_true] at hword
    exact isDefinable_ofList hword.1 hword.2

theorem name_of_binding {target : Target} {name : String}
    (hbinding : .definition name = target.binding) : name = target.name := by
  unfold binding at hbinding
  split at hbinding
  · cases hbinding
    rfl
  · cases hbinding

end Target

theorem ExtractionText.isDefinable_of_ofText? {text : String} {parts : ExtractionText}
    (hread : ofText? text = some parts) : IsDefinable parts.source := by
  unfold ofText? at hread
  split at hread
  · dsimp only at hread
    split at hread
    · rename_i first others inner hsource hrest
      split at hread
      · obtain ⟨condition, -, rfl⟩ := Option.map_eq_some_iff.mp hread
        exact isDefinable_ofList (by rw [hsource]; exact List.cons_ne_nil _ _)
          (Scan.mem_takeWhile _)
      · cases hread
    · cases hread
  · cases hread

/-! ## What the lines bind -/

namespace Statement

variable {names : Names} {line : String} {statement : Statement}

theorem ofLine_definition (hkind : classifyLine line = .ok .definition) :
    ofLine names line = readDefinition names line := by
  rw [ofLine, hkind]
  rfl

theorem ofLine_extraction (hkind : classifyLine line = .ok .extraction) :
    ofLine names line = readExtraction names line := by
  rw [ofLine, hkind]
  rfl

theorem ofLine_procedure (hkind : classifyLine line = .ok .procedure) :
    ofLine names line = readPipe names line := by
  rw [ofLine, hkind]
  rfl

/-- A definition has a target, and a query or an expression as its right side. -/
theorem readDefinition_cases (hread : readDefinition names line = .ok statement) :
    ∃ target, Target.ofText (sides definitionOperator line).1 = .ok target ∧
      ((∃ found, readQuery names (Text.trim (sides definitionOperator line).2) = .ok (some found) ∧
          statement = .query target found) ∨
        ∃ node, Node.ofText names (Text.trim (sides definitionOperator line).2) = .ok node ∧
          statement = .define target node) := by
  unfold readDefinition at hread
  generalize sides definitionOperator line = parts at hread ⊢
  obtain ⟨left, right⟩ := parts
  dsimp only at hread ⊢
  obtain ⟨target, htarget, hright⟩ := exists_of_bind_eq_ok hread
  refine ⟨target, htarget, ?_⟩
  split at hright
  · cases hright
  · obtain ⟨query, hquery, hexpression⟩ := exists_of_bind_eq_ok hright
    cases query with
    | some found =>
      cases hexpression
      exact .inl ⟨found, hquery, rfl⟩
    | none =>
      obtain ⟨node, hnode, hdefine⟩ := exists_of_bind_eq_ok hexpression
      cases hdefine
      exact .inr ⟨node, hnode, rfl⟩

theorem exists_of_readDefinition (hread : readDefinition names line = .ok statement) :
    ∃ target, Target.ofText (sides definitionOperator line).1 = .ok target ∧
      statement.bindings = [target.binding] := by
  obtain ⟨target, htarget, ⟨found, -, rfl⟩ | ⟨node, -, rfl⟩⟩ := readDefinition_cases hread
  all_goals exact ⟨target, htarget, rfl⟩

theorem exists_of_readExtraction (hread : readExtraction names line = .ok statement) :
    ∃ target parts, Target.ofText (sides extractionOperator line).1 = .ok target ∧
      ExtractionText.ofText? (sides extractionOperator line).2 = some parts ∧
      statement.bindings = [.definition parts.source, target.binding] := by
  unfold readExtraction at hread
  generalize sides extractionOperator line = both at hread
  obtain ⟨left, right⟩ := both
  dsimp only at hread
  obtain ⟨target, htarget, hright⟩ := exists_of_bind_eq_ok hread
  split at hright
  · cases hright
  · rename_i parts hparts
    obtain ⟨condition, -, hextract⟩ := exists_of_bind_eq_ok hright
    cases hextract
    exact ⟨target, parts, htarget, hparts, rfl⟩

theorem exists_of_readPipe (hread : readPipe names line = .ok statement) :
    ∃ left procedure arguments pairwise,
      Node.ofText names line = .ok (.pipe left procedure arguments pairwise) ∧
        statement = .invoke (.pipe left procedure arguments pairwise) := by
  unfold readPipe at hread
  obtain ⟨node, hnode, hpipe⟩ := exists_of_bind_eq_ok hread
  split at hpipe
  · cases hpipe
    exact ⟨_, _, _, _, hnode, rfl⟩
  · cases hpipe

/-- A line binds names that can be defined. -/
theorem isDefinable_of_ofLine (hread : ofLine names line = .ok statement) {name : String}
    (hname : .definition name ∈ statement.bindings) : IsDefinable name := by
  unfold ofLine at hread
  obtain ⟨kind, -, hkind⟩ := exists_of_bind_eq_ok hread
  cases kind with
  | definition =>
    obtain ⟨target, htarget, hbindings⟩ := exists_of_readDefinition hkind
    rw [hbindings, List.mem_singleton] at hname
    exact Target.name_of_binding hname ▸ Target.isDefinable_of_ofText htarget
  | extraction =>
    obtain ⟨target, parts, htarget, hparts, hbindings⟩ := exists_of_readExtraction hkind
    rw [hbindings, List.mem_cons, List.mem_singleton] at hname
    rcases hname with hsource | htargeted
    · cases hsource
      exact ExtractionText.isDefinable_of_ofText? hparts
    · exact Target.name_of_binding htargeted ▸ Target.isDefinable_of_ofText htarget
  | command =>
    obtain ⟨expression, -, hinvoke⟩ := exists_of_bind_eq_ok hkind
    cases hinvoke
    cases hname
  | procedure =>
    obtain ⟨_, _, _, _, -, rfl⟩ := exists_of_readPipe hkind
    cases hname

end Statement

/-! ## What a script has defined -/

/-- All that is defined has a name that can be defined. -/
def Environment.Definable (environment : Environment) : Prop :=
  ∀ name value, environment.lookup? name = some value → IsDefinable name

theorem definable_executeLine {patcher : Patcher} (hdefinable : patcher.environment.Definable)
    (line : String) : ((executeLine line).run patcher).2.environment.Definable := by
  rcases hrun : (executeLine line).run patcher with ⟨fault | _, after⟩
  · rwa [environment_of_failed hrun]
  · obtain ⟨statement, hread, -, hsame⟩ := exists_of_executed hrun
    intro name value hlookup
    by_cases hname : .definition name ∈ statement.bindings
    · exact Statement.isDefinable_of_ofLine hread hname
    · rw [hsame.definitions name hname] at hlookup
      exact hdefinable name value hlookup

/-- Whatever lines there have been, failed ones included, every definition they have left has a
name that can be defined. -/
theorem definable_leftBy {patcher : Patcher} (hdefinable : patcher.environment.Definable)
    (lines : List String) : (patcher.leftBy lines).environment.Definable := by
  induction lines generalizing patcher with
  | nil => exact hdefinable
  | cons raw rest ih =>
    rw [Patcher.leftBy_cons]
    refine ih ?_
    rw [Patcher.afterLine]
    split_ifs
    · exact definable_executeLine hdefinable _
    · exact hdefinable

/-! ## What the names mean -/

section

open Reader

/-- A name is read as what it is defined as. -/
theorem Node.ofText_name {names : Names} {name : String} (hname : IsName name)
    (hparameter : name ∉ names.parameters) {value : Value}
    (hvalue : names.environment.lookup? name = some value) :
    Node.ofText names name = .ok value.asNode := by
  have hspells : Scan.Spells none name.toList [.named name] (some (Scan.wordKind name)) [] := by
    have hend : ∀ char ∈ ([] : List Char).head?, Text.isWord char = false := by simp
    simpa using Scan.Spells.name hname.toIsWord hend (.done _ [])
  obtain ⟨tokens, column, hwords, hscan⟩ := Scan.ofText_of_spells hspells
  have hnamed : Word.named name = ⟨.identifier, name⟩ := by rw [Word.named, hname.kind]
  have hends : (⟨.finish, ""⟩ : Word).EndsOperand := Word.endsOperand_of_closes rfl
  have hoperand : Reads (readOperand (16 * (tokens.length + 1) + 12 + 3) names)
      [⟨.identifier, name⟩] [⟨.finish, ""⟩] value.asNode :=
    reads_definition hparameter hvalue hends []
  refine Node.ofText_of_reads hscan ?_
  rw [hwords, hnamed, readingBudget, readOperation]
  exact .andThen hoperand (readOperations_stops (by omega) (by simp))

theorem Value.run_asNode (value : Value) (setting : Setting) (record : Option RecordRef)
    (world : World) : (value.asNode.evaluate setting record).run world = (.ok value, world) := by
  cases value <;> (simp only [Value.asNode, Node.evaluate, Node.evaluateWith]; rfl)

/-! ### Names that are literals -/

namespace Scan

variable {chars : List Char}

/-- Of a text of word characters, the first token is a number or all of the text. -/
theorem exists_first_of_word (budget : Nat) (previous : Option TokenKind) (column : Nat)
    (hword : ∀ char ∈ chars, Text.isWord char = true) :
    (scanFrom budget previous column chars).tokens = [] ∨
      chars = [] ∨ ∃ token rest left place,
        (scanFrom budget previous column chars).tokens =
            token :: (scanFrom left (some token.kind) place rest).tokens ∧
          chars = token.text.toList ++ rest ∧
          (token.kind.IsNumber ∨ rest = [] ∧ token.kind = wordKind token.text ∧
            IsWord token.text) := by
  cases budget with
  | zero => exact .inl rfl
  | succ budget =>
    cases chars with
    | nil => exact .inr (.inl rfl)
    | cons first others =>
      have hblank : Text.isBlank first = false :=
        Text.isBlank_eq_false_of_isWord (hword first List.mem_cons_self)
      have htake : (first :: others).takeWhile Text.isBlank = [] :=
        List.takeWhile_cons_of_neg (by simp [hblank])
      have hdrop : (first :: others).dropWhile Text.isBlank = first :: others :=
        List.dropWhile_cons_of_neg (by simp [hblank])
      rw [scanFrom, htake, hdrop]
      cases hstep : step previous (column + ([] : List Char).length) (first :: others) with
      | error fault => exact .inl rfl
      | ok found =>
        obtain ⟨token, rest⟩ := found
        have hstands := stands_of_step hstep
        have hfinish : token.isFinish = false := by
          simpa [Token.isFinish] using hstands.lexeme.kind_ne_finish
        refine .inr (.inr ⟨token, rest, budget,
          column + ([] : List Char).length + token.text.length, ?_, hstands.split, ?_⟩)
        · simp only [hfinish, Bool.false_eq_true, if_false]
        have hsplit : token.text.toList ++ rest = (first :: others) ++ [] := by
          rw [List.append_nil, hstands.split]
        refine (hstands.lexeme.number_or_word (List.cons_ne_nil _ _) hword (by simp) hsplit).imp_right ?_
        rintro ⟨hwhole, hrest, hkind, hletter⟩
        rw [← hwhole] at hword hletter hkind
        rw [String.ofList_toList] at hkind
        exact ⟨hrest, hkind, hletter, List.all_eq_true.mpr hword⟩

/-- The first token of a text of word characters does not go on with what stands before it. -/
theorem endsOperand_of_word (budget : Nat) (previous : Option TokenKind) (column : Nat)
    (hword : ∀ char ∈ chars, Text.isWord char = true) :
    ∀ token ∈ (scanFrom budget previous column chars).tokens.head?,
      token.kind ≠ .operator ∧ token.word.EndsOperand := by
  have hkinds : ∀ kind : TokenKind, kind.IsNumber ∨ (∃ text, kind = wordKind text) ∨ kind = .finish →
      kind ≠ .operator ∧ kind ≠ .leftBracket ∧ kind ≠ .leftParen := by
    rintro kind (hnumber | ⟨text, rfl⟩ | rfl)
    · cases kind <;> first | exact hnumber.elim | simp
    · obtain hkind | ⟨flag, hkind⟩ := Node.wordKind_cases text
      all_goals simp [hkind]
    · simp
  intro token htoken
  suffices hkind : token.kind.IsNumber ∨ (∃ text, token.kind = wordKind text) ∨
      token.kind = .finish by
    obtain ⟨hoperator, hbracket, hparen⟩ := hkinds token.kind hkind
    exact ⟨hoperator, hbracket, hparen, fun harrow => hoperator harrow.1⟩
  obtain hnone | rfl | ⟨first, rest, left, place, htokens, -, hfirst⟩ :=
    exists_first_of_word budget previous column hword
  · rw [hnone] at htoken
    cases htoken
  · cases budget with
    | zero => cases htoken
    | succ budget =>
      cases htoken
      exact .inr (.inr rfl)
  · rw [htokens] at htoken
    cases htoken
    exact hfirst.imp_right fun hwhole => .inl ⟨_, hwhole.2.1⟩

end Scan

/-- A name that does not start with a letter, or is a truth value, starts with a literal, if
with any token. -/
theorem Scan.exists_literal {name : String} (hname : IsDefinable name) (hnot : ¬ IsName name)
    {token : Token} {later : List Token} (htokens : (ofText name).tokens = token :: later) :
    (∃ value, token.kind.literal? = some value) ∧
      ∀ next ∈ later.head?, next.kind ≠ .operator ∧ next.word.EndsOperand := by
  have hsome : name.toList ≠ [] := fun hnil => hname.some (String.toList_eq_nil_iff.mp hnil)
  have hscan : (ofText name).tokens =
      (scanFrom (name.length + 1) none 0 name.toList).tokens := rfl
  rw [hscan] at htokens
  obtain hnone | hempty | ⟨first, rest, left, place, hfirst, hsplit, hkind⟩ :=
    exists_first_of_word (name.length + 1) none 0 hname.all
  · rw [hnone] at htokens
    cases htokens
  · exact absurd hempty hsome
  rw [hfirst] at htokens
  obtain ⟨rfl, rfl⟩ := List.cons.inj htokens
  have hrest : ∀ char ∈ rest, Text.isWord char = true := fun char hchar =>
    hname.all char (hsplit ▸ List.mem_append_right _ hchar)
  refine ⟨?_, endsOperand_of_word left _ place hrest⟩
  obtain hnumber | ⟨rfl, hword, hletters⟩ := hkind
  · exact TokenKind.exists_literal hnumber
  · have htext : first.text = name := String.toList_inj.mp (by rw [hsplit, List.append_nil])
    rw [htext] at hword hletters
    obtain hidentifier | ⟨flag, hflag⟩ := Node.wordKind_cases name
    · exact absurd ⟨hletters, hidentifier⟩ hnot
    · rw [hword, hflag]
      exact ⟨_, rfl⟩

/-- A name that does not start with a letter, or is a truth value, is read alike whatever is
defined. -/
theorem Node.ofText_eq_of_not_isName {name : String} (hname : IsDefinable name)
    (hnot : ¬ IsName name) (names others : Names) :
    Node.ofText names name = Node.ofText others name := by
  have hread : ∀ names, Node.ofText names name = ((current >>= fun _ => budgetHere >>= fun budget =>
      readOperation budget names 0 >>= fun node => expectFinish >>= fun _ => pure node : Reader Node)
        ⟨(Scan.ofText name).tokens, (Scan.ofText name).fault?⟩).map Prod.fst := fun _ => rfl
  rw [hread, hread]
  refine congrArg (Except.map Prod.fst) ?_
  refine bind_congr_at rfl fun token mid hcurrent => ?_
  obtain ⟨rfl, later, htokens⟩ := exists_of_current hcurrent
  refine bind_congr_at rfl fun budget mid hbudget => ?_
  cases hbudget
  refine bind_congr_at ?_ fun _ _ _ => rfl
  obtain ⟨⟨value, hliteral⟩, hlater⟩ := Scan.exists_literal hname hnot htokens
  generalize (Scan.ofText name).tokens = tokens, (Scan.ofText name).fault? = fault? at htokens ⊢
  subst htokens
  have hsame : readOperation (16 * (token :: later).length + 13 + 3) names 0 ⟨token :: later, fault?⟩ =
      readOperation (16 * (token :: later).length + 13 + 3) others 0 ⟨token :: later, fault?⟩ :=
    readOperation_literal hliteral hlater names others
  exact hsame

end

/-! ### What a definition gives -/

/-- The text is an expression that has the value for every record, and changes nothing. -/
def Patcher.Gives (patcher : Patcher) (text : String) (value : Value) : Prop :=
  ∃ node, Node.ofText patcher.names text = .ok node ∧ ∀ record world,
    (node.evaluate patcher.setting record).run world = (.ok value, world)

theorem Patcher.gives_of_lookup? {patcher : Patcher} {name : String} {value : Value}
    (hname : IsName name) (hvalue : patcher.environment.lookup? name = some value) :
    patcher.Gives name value :=
  ⟨value.asNode, Node.ofText_name hname List.not_mem_nil hvalue, value.run_asNode _⟩

namespace Statement

theorem not_infix_concat {chars : List Char} (hchars : ¬ definitionOperator <:+: chars) :
    ¬ definitionOperator <:+: chars ++ definitionOperator.dropLast := by
  intro hwithin
  obtain ⟨front, hlast⟩ | hinside := List.infix_concat_iff.mp hwithin
  · have hends := congrArg List.getLast? hlast
    simp [definitionOperator] at hends
  · exact hchars hinside

/-- A line is cut at the first operator of a definition. -/
theorem sides_of_definition {left right : String} (hleft : ¬ definitionOperator <:+: left.toList) :
    sides definitionOperator (left ++ ":=" ++ right) = (left, right) := by
  have hbreak := Text.breakOn?_of_first (not_infix_concat hleft) right.toList
  have hchars : (left ++ ":=" ++ right).toList =
      left.toList ++ (definitionOperator ++ right.toList) := by
    simp [definitionOperator]
  rw [sides, hchars, hbreak]
  simp

theorem ofLine_of_definition (names : Names) (left right : String) :
    ofLine names (left ++ ":=" ++ right) = readDefinition names (left ++ ":=" ++ right) := by
  refine ofLine_definition (if_pos (Text.occursIn_iff.mpr ⟨left.toList, right.toList, ?_⟩))
  simp [definitionOperator]

end Statement

theorem Target.isTableEntry_of_read {chars : List Char} {target : Target}
    (hentry : tableEntry? chars = some target) : target.isTableEntry = true := by
  unfold tableEntry? at hentry
  dsimp only at hentry
  split at hentry
  · split at hentry
    · cases hentry
      rfl
    · cases hentry
  · cases hentry

/-- A name and the blanks around it do not contain the operator of a definition. -/
theorem Target.not_infix_of_ofText {text name : String} (htarget : ofText text = .ok ⟨name, none⟩) :
    ¬ definitionOperator <:+: text.toList := by
  intro hwithin
  have hcolon : ':' ∈ text.toList := hwithin.subset (by decide)
  have htrimmed : ∀ char ∈ Text.trimChars text.toList, Text.isWord char = true := by
    unfold ofText at htarget
    dsimp only at htarget
    split at htarget
    · rename_i found hentry
      cases htarget
      exact absurd (isTableEntry_of_read hentry) Bool.false_ne_true
    · split_ifs at htarget with hword
      rw [Bool.and_eq_true, List.all_eq_true] at hword
      exact hword.2
  obtain ⟨blanks, after, hblanks, hafter, hchars⟩ := Text.exists_trimChars text.toList
  have hblank : Text.isBlank ':' = false := by decide
  rw [hchars] at hcolon
  obtain hfront | hrest := List.mem_append.mp hcolon
  · rw [hblanks ':' hfront] at hblank
    cases hblank
  obtain hname | hback := List.mem_append.mp hrest
  · exact absurd (htrimmed ':' hname) (by decide)
  · rw [hafter ':' hback] at hblank
    cases hblank

theorem exists_of_assigned {name : String} {node : Node} {patcher after : Patcher}
    (hrun : (assign ⟨name, none⟩ node).run patcher = (.ok (), after)) :
    ∃ value, after.environment = patcher.environment.define name value := by
  unfold assign at hrun
  dsimp only at hrun
  rw [run_bind, Run.run_evaluate] at hrun
  generalize (node.evaluate patcher.setting none).run patcher.world = ran at hrun
  obtain ⟨fault | value, world⟩ := ran
  · cases hrun
  · cases hrun
    exact ⟨value, rfl⟩

/-- A literal is stored as its value. -/
theorem run_definition {patcher : Patcher} {left right name : String} {value : Value}
    (htarget : Target.ofText left = .ok ⟨name, none⟩)
    (hnode : Node.ofText patcher.names (Text.trim right) = .ok (.literal value)) :
    (executeLine (left ++ ":=" ++ right)).run patcher =
      (.ok (), { patcher with environment := patcher.environment.define name value }) := by
  have hsides : Statement.sides definitionOperator (left ++ ":=" ++ right) = (left, right) :=
    Statement.sides_of_definition (Target.not_infix_of_ofText htarget)
  have hread : Statement.ofLine patcher.names (left ++ ":=" ++ right) =
      .ok (.define ⟨name, none⟩ (.literal value)) := by
    rw [Statement.ofLine_of_definition,
      Statement.readDefinition_of_ofText (by rw [hsides]; exact hnode), hsides, htarget]
    rfl
  rw [run_executeLine_of_read hread, Statement.execute, assign]
  dsimp only
  rw [run_bind, Run.run_evaluate, Node.evaluate, Node.evaluateWith]
  rfl

/-- A line that defines a name stores a value. -/
theorem exists_of_definitionLine {patcher after : Patcher} {text name expression : String}
    (htarget : Target.ofText text = .ok ⟨name, none⟩)
    (hrun : (executeLine (text ++ ":=" ++ expression)).run patcher = (.ok (), after)) :
    ∃ value, after.environment = patcher.environment.define name value := by
  obtain ⟨statement, hread, hexecute, -⟩ := exists_of_executed hrun
  rw [Statement.ofLine_of_definition] at hread
  obtain ⟨target, hname, hright⟩ := Statement.readDefinition_cases hread
  rw [Statement.sides_of_definition (Target.not_infix_of_ofText htarget), htarget] at hname
  cases hname
  obtain ⟨found, -, rfl⟩ | ⟨node, -, rfl⟩ := hright
  · rw [Statement.execute, run_bind, Run.run_evaluate] at hexecute
    generalize (resolveGroup patcher.setting.repository _ _ _ _).run patcher.world = ran at hexecute
    obtain ⟨fault | group, world⟩ := ran
    · cases hexecute
    · have hassign : (assign ⟨name, none⟩ (.group group)).run { patcher with world := world } =
          (.ok (), after) := hexecute
      obtain ⟨value, hvalue⟩ := exists_of_assigned hassign
      exact ⟨value, hvalue⟩
  · exact exists_of_assigned hexecute

/-- A line that defines a name stores a value.  If the name starts with a letter and is no truth
value, the name alone is an expression then, with the value that was stored.  Any other name alone
means the same, whatever is defined. -/
theorem definition_gives {patcher after : Patcher} {text name expression : String}
    (htarget : Target.ofText text = .ok ⟨name, none⟩)
    (hrun : (executeLine (text ++ ":=" ++ expression)).run patcher = (.ok (), after)) :
    ∃ value, after.environment = patcher.environment.define name value ∧
      (IsName name → after.Gives name value) ∧
      (¬ IsName name → ∀ names others, Node.ofText names name = Node.ofText others name) := by
  obtain ⟨value, hvalue⟩ := exists_of_definitionLine htarget hrun
  refine ⟨value, hvalue, fun hname => Patcher.gives_of_lookup? hname ?_, fun hnot names others =>
    Node.ofText_eq_of_not_isName (Target.isDefinable_of_ofText htarget) hnot names others⟩
  rw [hvalue, Environment.lookup?_define_self]

theorem limit_given : ∃ after, (executeLine ("limit " ++ ":=" ++ " 5")).run {} = (.ok (), after) ∧
    after.Gives "limit" (.integer 5) := by
  have htarget : Target.ofText "limit " = .ok ⟨"limit", none⟩ := by rfl
  have hnode : Node.ofText (Patcher.names {}) (Text.trim " 5") = .ok (.literal (.integer 5)) := by
    rfl
  have hrun := run_definition htarget hnode
  obtain ⟨value, hvalue, hgives, -⟩ := definition_gives htarget hrun
  have hsame : some (.integer 5) = some value := congrArg (·.lookup? "limit") hvalue
  obtain rfl := Option.some.inj hsame
  exact ⟨_, hrun, hgives ⟨⟨by decide, by decide⟩, by decide⟩⟩

/-- A truth value can be defined as something else, but its name goes on meaning the truth value.
A name that starts with no letter can be defined, but is no expression. -/
theorem truth_not_given :
    (∃ after, (executeLine ("true " ++ ":=" ++ " 5")).run {} = (.ok (), after) ∧
      after.environment.lookup? "true" = some (.integer 5) ∧ ¬ after.Gives "true" (.integer 5)) ∧
    ∃ after, (executeLine ("_limit " ++ ":=" ++ " 5")).run {} = (.ok (), after) ∧
      after.environment.lookup? "_limit" = some (.integer 5) ∧
        ∀ value, ¬ after.Gives "_limit" value := by
  have hnode : Node.ofText (Patcher.names {}) (Text.trim " 5") = .ok (.literal (.integer 5)) := by
    rfl
  have htrue : Target.ofText "true " = .ok ⟨"true", none⟩ := by rfl
  have hlimit : Target.ofText "_limit " = .ok ⟨"_limit", none⟩ := by rfl
  refine ⟨⟨_, run_definition htrue hnode, rfl, ?_⟩, ⟨_, run_definition hlimit hnode, rfl, ?_⟩⟩
  · rintro ⟨node, hnamed, hgives⟩
    have htruth : ∀ names, Node.ofText names "true" = .ok (.literal (.boolean true)) := fun _ => rfl
    rw [htruth] at hnamed
    cases hnamed
    have hboth := (hgives none {}).symm.trans ((Value.boolean true).run_asNode _ none {})
    cases hboth
  · rintro value ⟨node, hnamed, -⟩
    cases hnamed

end Patchwork
