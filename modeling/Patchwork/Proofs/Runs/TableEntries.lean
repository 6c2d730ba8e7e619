import Patchwork.Proofs.Evaluation.Depth
import Patchwork.Proofs.Runs.DefinedNames

/-!
# Table entries

A line may give the entry of a table an expression, which is not evaluated then.  Under the key it
was written with, the entry is found by every later expression, until a line assigns it again; what
the name of the table is defined as makes no difference.  The look-up does what the expression does
with one level less.
-/

namespace Patchwork

open Agree.Computations (run_bind)

/-! ## Entries in writing -/

/-- The entry of a table with a key, in writing. -/
def entryText (table key : String) : String :=
  table ++ "[\"" ++ key ++ "\"]"

/-- A line that gives the entry of a table an expression. -/
def entryLine (table key expression : String) : String :=
  entryText table key ++ " := " ++ expression

/-- A key that can stand between quotes on the left side of a definition. -/
structure IsKeyText (key : String) : Prop where
  notQuote : '"' ∉ key.toList
  notBracket : ']' ∉ key.toList
  notComment : ';' ∉ key.toList
  notOperator : ¬ definitionOperator <:+: key.toList

theorem toList_entryText (table key : String) :
    (entryText table key).toList = table.toList ++ '[' :: '"' :: (key.toList ++ ['"', ']']) := by
  simp [entryText]

/-- The entry of a table in writing is read as a look-up of the entry. -/
theorem Node.ofText_entryText {table key : String} (htable : IsName table) (hkey : IsKeyText key)
    (names : Names) :
    Node.ofText names (entryText table key) =
      .ok (.index (.tableName table) (.literal (.string key))) := by
  have hwritable : Writable names (.index (.tableName table) (.literal (.string key))) :=
    .entry htable (.string hkey.notQuote)
  obtain ⟨tokens, column, hwords, hscan⟩ := hwritable.scan_text
  have htext : Node.text names.labels (.index (.tableName table) (.literal (.string key))) =
      entryText table key := by
    apply String.toList_inj.mp
    simp [Node.text, entryText]
  rw [htext] at hscan
  exact hwritable.isParsed.whole.ofText_eq hwords hscan

namespace Target

/-- A name with something in brackets behind it, and a blank or more after that, is trimmed to the
brackets. -/
theorem trimChars_entryText {table : String} (key : String) (htable : IsName table) :
    Text.trimChars (entryText table key ++ " ").toList =
      table.toList ++ '[' :: ('"' :: (key.toList ++ ['"']) ++ [']']) := by
  obtain ⟨first, others, hfirst, hletter⟩ := htable.exists_letter
  have hblank : Text.isBlank first = false := Text.isBlank_eq_false_of_isLetter hletter
  have hfront : (entryText table key ++ " ").toList =
      first :: (others ++ '[' :: '"' :: (key.toList ++ ['"'])) ++ ']' :: [' '] := by
    rw [String.toList_append, toList_entryText, hfirst]
    simp
  have hright : Text.trimRight [' '] = [] := rfl
  rw [hfront, List.cons_append, Text.trimChars, Text.trimLeft_cons_of_not_isBlank hblank,
    ← List.cons_append, Text.trimRight_append_of_not_isBlank (by decide), hright, hfirst]
  simp

theorem keyBetween?_quoted (key : List Char) :
    keyBetween? ('"' :: (key ++ ['"'])) = some ('"' :: (key ++ ['"'])) := by
  have hquote : Text.isBlank '"' = false := by decide
  have htrimmed : Text.trimChars ('"' :: (key ++ ['"'])) = '"' :: (key ++ ['"']) := by
    rw [Text.trimChars, Text.trimLeft_cons_of_not_isBlank hquote, ← List.cons_append,
      Text.trimRight_concat_of_not_isBlank hquote]
  rw [ keyBetween?, htrimmed]

theorem unquoted_quoted (key : List Char) : unquoted ('"' :: (key ++ ['"'])) = key := by
  simp [unquoted]

/-- The quotes around a key keep the blanks at its ends, and are taken off it. -/
theorem tableEntry?_entryText {table key : String} (htable : IsName table) (hkey : IsKeyText key) :
    tableEntry? (table.toList ++ '[' :: ('"' :: (key.toList ++ ['"']) ++ [']'])) =
      some ⟨table, some key⟩ := by
  have hword : ∀ char ∈ table.toList, Text.isWord char = true :=
    fun char hchar => htable.isWord_of_mem hchar
  have hopen : ∀ behind : List Char, ∀ char ∈ ('[' :: behind).head?,
      Text.isWord char = false := by
    rintro behind char ⟨⟩
    decide
  have hinner : ∀ char ∈ '"' :: (key.toList ++ ['"']), (char != ']') = true := by
    simp only [List.mem_cons, List.mem_append, bne_iff_ne]
    rintro char (rfl | hmem | rfl | hmem)
    · decide
    · exact fun hclose => hkey.notBracket (hclose ▸ hmem)
    · decide
    · cases hmem
  have hclose : ∀ char ∈ [']'].head?, (char != ']') = false := by
    rintro char ⟨⟩
    decide
  obtain ⟨first, others, hfirst, -⟩ := htable.exists_letter
  have htrim : ∀ behind, Text.trimLeft ('[' :: behind) = '[' :: behind := fun _ => rfl
  rw [ tableEntry?]
  dsimp only
  rw [Scan.takeWhile_append_of_ends hword (hopen _),
    Scan.dropWhile_append_of_ends hword (hopen _), htrim, hfirst]
  split
  · rename_i head tail rest hname hbrackets
    cases hbrackets
    rw [Scan.takeWhile_append_of_ends hinner hclose, Scan.dropWhile_append_of_ends hinner hclose,
      keyBetween?_quoted, ← hfirst]
    simp only [unquoted_quoted, String.ofList_toList]
  · rename_i hother
    exact (hother first others _ rfl rfl).elim

/-- The entry of a table in writing is a target, with the key between the quotes. -/
theorem ofText_entryText {table key : String} (htable : IsName table) (hkey : IsKeyText key) :
    ofText (entryText table key ++ " ") = .ok ⟨table, some key⟩ := by
  rw [ofText, trimChars_entryText key htable]
  simp only [tableEntry?_entryText htable hkey]

end Target

/-! ## The line that writes an entry -/

section

variable {table key expression : String}

/-- Without a comment and the blanks at its end, the line has the entry and a blank in front of its
operator. -/
theorem stripComment_entryLine (htable : IsName table) (hkey : IsKeyText key)
    (hcomment : ';' ∉ expression.toList) :
    stripComment (entryLine table key expression) = entryText table key ++ " " ++ ":=" ++
      String.ofList (Text.trimRight (' ' :: expression.toList)) := by
  have hkept : ∀ char ∈ (entryLine table key expression).toList, (char != ';') = true := by
    have hname : ';' ∉ table.toList := fun hmem =>
      absurd (htable.isWord_of_mem hmem) (by decide)
    have hline : ';' ∉ (entryLine table key expression).toList := by
      simp [entryLine, toList_entryText, hname, hkey.notComment, hcomment]
    rintro char hmem
    rw [bne_iff_ne]
    rintro rfl
    exact hline hmem
  obtain ⟨first, others, hfirst, hletter⟩ := htable.exists_letter
  have hchars : (entryLine table key expression).toList =
      first :: (others ++ '[' :: '"' :: (key.toList ++ ['"', ']', ' ', ':'])) ++
        '=' :: (' ' :: expression.toList) := by
    simp [entryLine, toList_entryText, hfirst]
  have hwhole : (entryLine table key expression).toList.takeWhile (· != ';') =
      (entryLine table key expression).toList := by
    rw [← List.append_nil (entryLine table key expression).toList,
      List.takeWhile_append_of_pos hkept, List.takeWhile_nil]
  rw [stripComment, hwhole, hchars, Text.trimChars, List.cons_append,
    Text.trimLeft_cons_of_not_isBlank (Text.isBlank_eq_false_of_isLetter hletter),
    ← List.cons_append, Text.trimRight_append_of_not_isBlank (by decide)]
  apply String.toList_inj.mp
  simp [toList_entryText, hfirst]

/-- The operator of the line is the first one in it. -/
theorem not_infix_entryText (htable : IsName table) (hkey : IsKeyText key) :
    ¬ definitionOperator <:+: (entryText table key ++ " ").toList := by
  intro hwithin
  have hchars : (entryText table key ++ " ").toList =
      table.toList ++ '[' :: ([] ++ '"' :: (key.toList ++ '"' :: [']', ' '])) := by
    simp [toList_entryText]
  rw [hchars] at hwithin
  obtain hname | hrest := Text.infix_of_gap (by decide) hwithin
  · have hcolon : ':' ∈ table.toList := hname.subset (by decide)
    exact absurd (htable.isWord_of_mem hcolon) (by decide)
  obtain hempty | hrest := Text.infix_of_gap (by decide) hrest
  · exact absurd hempty (by decide)
  obtain hinside | hbehind := Text.infix_of_gap (by decide) hrest
  · exact hkey.notOperator hinside
  · exact absurd hbehind (by decide)

/-- What stands behind the operator is the expression with blanks around it. -/
theorem trim_rightSide : Text.trim (String.ofList (Text.trimRight (' ' :: expression.toList))) =
    Text.trim expression := by
  have hblank : ∀ char ∈ [' '], Text.isBlank char = true :=
    List.forall_mem_singleton.mpr (by decide)
  have hleft : Text.trimLeft (' ' :: expression.toList) = Text.trimLeft expression.toList :=
    Text.trimLeft_append_of_isBlank hblank expression.toList
  rw [Text.trim, String.toList_ofList, Text.trimChars_trimRight, Text.trimChars, hleft, Text.trim,
    Text.trimChars]

/-- Blanks around a text do not make it a group query. -/
theorem QueryText.ofText?_trim (text : String) : ofText? (Text.trim text) = ofText? text := by
  rw [ofText?, ofText?, Text.trim, String.toList_ofList, Text.trimChars_trimChars]

/-- If the line is carried out, its right side has been read as an expression, and the entry
is that expression now. -/
theorem exists_of_entryLine {before : Patcher} (htable : IsName table) (hkey : IsKeyText key)
    (hcomment : ';' ∉ expression.toList) (hquery : QueryText.ofText? expression = none)
    (hruns : before.lineFault? (entryLine table key expression) = none) :
    ∃ node, Node.ofText before.names (Text.trim expression) = .ok node ∧
      (before.afterLine (entryLine table key expression)).environment =
        before.environment.setTableEntry table key node := by
  have hline := stripComment_entryLine htable hkey hcomment
  have hstatement : isStatement (entryLine table key expression) = true := by
    rw [isStatement_iff, hline]
    intro hempty
    have hnil := congrArg String.toList hempty
    simp at hnil
  rw [Patcher.lineFault?, if_pos hstatement] at hruns
  rw [Patcher.afterLine, if_pos hstatement]
  rcases hrun : (executeLine (stripComment (entryLine table key expression))).run before with
    ⟨fault | result, after⟩
  · rw [hrun] at hruns
    cases hruns
  rw [hline] at hrun
  obtain ⟨statement, hread, hexecute, -⟩ := exists_of_executed hrun
  rw [Statement.ofLine_of_definition] at hread
  obtain ⟨target, htarget, hright⟩ := Statement.readDefinition_cases hread
  rw [Statement.sides_of_definition (not_infix_entryText htable hkey)] at htarget hright
  dsimp only at htarget hright
  rw [Target.ofText_entryText htable hkey] at htarget
  cases htarget
  rw [trim_rightSide] at hright
  obtain ⟨found, hfound, -⟩ | ⟨node, hnode, rfl⟩ := hright
  · rw [Statement.readQuery, QueryText.ofText?_trim, hquery] at hfound
    cases hfound
  · cases hexecute
    exact ⟨node, hnode, rfl⟩

end

/-! ## As long as the entry is not assigned again -/

namespace Patcher

/-- None of the lines, each in the state that the lines before it have left, is carried out as a
statement that binds this. -/
def NeverAssigns (patcher : Patcher) (binding : Binding) : List String → Prop
  | [] => True
  | raw :: rest =>
    (∀ statement, patcher.lineFault? raw = none →
        Statement.ofLine patcher.names (stripComment raw) = .ok statement →
        binding ∉ statement.bindings) ∧
      (patcher.afterLine raw).NeverAssigns binding rest

variable {patcher : Patcher} {table key : String}

theorem nodeOf?_afterLine {raw : String}
    (hother : ∀ statement, patcher.lineFault? raw = none →
      Statement.ofLine patcher.names (stripComment raw) = .ok statement →
      .entry table key ∉ statement.bindings) :
    (patcher.afterLine raw).environment.nodeOf? table key =
      patcher.environment.nodeOf? table key := by
  rw [afterLine]
  split_ifs with hstatement
  · rcases hrun : (executeLine (stripComment raw)).run patcher with ⟨fault | result, after⟩
    · rw [environment_of_failed hrun]
    · have hruns : patcher.lineFault? raw = none := by
        rw [lineFault?, if_pos hstatement, hrun]
      obtain ⟨statement, hread, -, hsame⟩ := exists_of_executed hrun
      exact hsame.entries table key (hother statement hruns hread)
  · rfl

theorem NeverAssigns.cons {binding : Binding} {raw : String} {rest : List String}
    (bindings : List Binding)
    (hread : (Statement.ofLine patcher.names (stripComment raw)).toOption.map Statement.bindings =
      some bindings) (hother : binding ∉ bindings)
    (hrest : (patcher.afterLine raw).NeverAssigns binding rest) :
    patcher.NeverAssigns binding (raw :: rest) := by
  refine ⟨fun statement _ hstatement => ?_, hrest⟩
  rw [hstatement] at hread
  exact Option.some.inj hread ▸ hother

/-- Lines that never assign an entry keep it. -/
theorem NeverAssigns.nodeOf?_leftBy {lines : List String}
    (hnever : patcher.NeverAssigns (.entry table key) lines) :
    (patcher.leftBy lines).environment.nodeOf? table key =
      patcher.environment.nodeOf? table key := by
  induction lines generalizing patcher with
  | nil => rfl
  | cons raw rest ih =>
    obtain ⟨hraw, hrest⟩ := hnever
    rw [leftBy_cons, ih hrest, nodeOf?_afterLine hraw]

end Patcher

/-! ## Looking the entry up -/

namespace Environment

variable {environment : Environment} {table key : String} {node : Node}

theorem tableEntry_of_nodeOf? (hnode : environment.nodeOf? table key = some node) :
    environment.tableEntry table key = .ok node := by
  obtain ⟨entries, htable, hentry⟩ := Option.bind_eq_some_iff.mp hnode
  rw [tableEntry, htable]
  simp only [hentry]

/-- A definition does not hide a table of its name. -/
theorem tableOrDefinition_of_nodeOf? (hnode : environment.nodeOf? table key = some node) :
    environment.tableOrDefinition table = .table table := by
  obtain ⟨entries, htable, -⟩ := Option.bind_eq_some_iff.mp hnode
  rw [tableOrDefinition, htable]

end Environment

/-- Looking an entry up leads one level deeper and does what the expression of the entry does
there. -/
theorem evaluateWith_entry {setting : Setting} {table key : String} {node : Node}
    (hnode : setting.environment.nodeOf? table key = some node) (depth : Nat)
    (record : Option RecordRef) :
    (Node.index (.tableName table) (.literal (.string key))).evaluateWith
        (deeperAt setting (depth + 1)) setting record =
      node.evaluateWith (deeperAt setting depth) setting record := by
  have htable := Environment.tableOrDefinition_of_nodeOf? hnode
  have hentry := Environment.tableEntry_of_nodeOf? hnode
  rw [Node.evaluateWith, Node.evaluateWith, Node.evaluateWith, htable]
  simp only [pure_bind]
  have hdisplay : ∀ labels, Value.display labels (.string key) = key := fun _ => rfl
  simp only [valueAt, hdisplay, hentry]
  funext world
  rfl

/-- The text is an expression that does, one level deeper, what the node does: it has the same
value or fault and the same effects for every record, unless it goes deeper than the last level, as
an entry does that leads back to itself. -/
def Patcher.LooksUp (patcher : Patcher) (text : String) (node : Node) : Prop :=
  ∃ lookup, Node.ofText patcher.names text = .ok lookup ∧ ∀ record,
    (∀ depth, lookup.evaluateWith (deeperAt patcher.setting (depth + 1)) patcher.setting record =
      node.evaluateWith (deeperAt patcher.setting depth) patcher.setting record) ∧
    Eval.Deepens (lookup.evaluate patcher.setting record) (node.evaluate patcher.setting record)

theorem Patcher.looksUp_of_nodeOf? {patcher : Patcher} {table key : String} {node : Node}
    (htable : IsName table) (hkey : IsKeyText key)
    (hnode : patcher.environment.nodeOf? table key = some node) :
    patcher.LooksUp (entryText table key) node := by
  refine ⟨_, Node.ofText_entryText htable hkey _, fun record =>
    ⟨fun depth => evaluateWith_entry hnode depth record, ?_⟩⟩
  have hlookup : Node.evaluate patcher.setting _ record = _ := evaluateWith_entry hnode 999 record
  rw [hlookup]
  exact (Deeper.Deepens.deeperAt_succ patcher.setting 999).evaluateWith patcher.setting node record

/-- A line that gives a table entry an expression only reads the expression, and leaves every other
entry and all definitions as they are.  Until another line assigns the entry, whatever is done in
between, the entry is looked up under the key it was written with, and the look-up does what the
expression does then; a definition of the table's name does not hide it. -/
theorem entry_looked_up {before : Patcher} {table key expression : String} (htable : IsName table)
    (hkey : IsKeyText key) (hcomment : ';' ∉ expression.toList)
    (hquery : QueryText.ofText? expression = none)
    (hruns : before.lineFault? (entryLine table key expression) = none) :
    let after := before.afterLine (entryLine table key expression)
    ∃ node, Node.ofText before.names (Text.trim expression) = .ok node ∧
      before.environment.SameBut [.entry table key] after.environment ∧
      ∀ lines, after.NeverAssigns (.entry table key) lines →
        (after.leftBy lines).environment.tableOrDefinition table = .table table ∧
          (after.leftBy lines).LooksUp (entryText table key) node := by
  obtain ⟨node, hnode, hwritten⟩ := exists_of_entryLine htable hkey hcomment hquery hruns
  refine ⟨node, hnode, ?_, fun lines hnever => ?_⟩
  · rw [hwritten]
    exact Environment.sameBut_setTableEntry List.mem_cons_self _ node
  · have hkept : ((before.afterLine (entryLine table key expression)).leftBy
        lines).environment.nodeOf? table key = some node := by
      rw [hnever.nodeOf?_leftBy, hwritten, Environment.nodeOf?_setTableEntry, if_pos ⟨rfl, rfl⟩]
    exact ⟨Environment.tableOrDefinition_of_nodeOf? hkept,
      Patcher.looksUp_of_nodeOf? htable hkey hkept⟩

theorem bonus_looked_up :
    let line := entryLine "bonus" " steel " "base[\"iron\"] + 2"
    let lines := ["bonus := 7", "base[\"iron\"] := 3", "bonus[\"steel\"] := 9"]
    Patcher.lineFault? {} line = none ∧
      (Patcher.afterLine {} line).NeverAssigns (.entry "bonus" " steel ") lines ∧
      ∃ node, Node.ofText (Patcher.names {}) "base[\"iron\"] + 2" = .ok node ∧
        ((Patcher.afterLine {} line).leftBy lines).LooksUp "bonus[\" steel \"]" node := by
  have htable : IsName "bonus" := ⟨⟨by decide, by decide⟩, by decide⟩
  have hkey : IsKeyText " steel " := by
    refine ⟨by decide, by decide, by decide, ?_⟩
    rw [← Text.occursIn_iff]
    decide
  have hruns : Patcher.lineFault? {} (entryLine "bonus" " steel " "base[\"iron\"] + 2") = none := by
    decide +kernel
  have hnever : (Patcher.afterLine {} (entryLine "bonus" " steel "
      "base[\"iron\"] + 2")).NeverAssigns (.entry "bonus" " steel ")
        ["bonus := 7", "base[\"iron\"] := 3", "bonus[\"steel\"] := 9"] := by
    refine .cons [.definition "bonus"] (by decide +kernel) (by decide) ?_
    refine .cons [.entry "base" "iron"] (by decide +kernel) (by decide) ?_
    exact .cons [.entry "bonus" "steel"] (by decide +kernel) (by decide) trivial
  obtain ⟨node, hnode, -, hlater⟩ := entry_looked_up htable hkey (by decide) (by rfl) hruns
  exact ⟨hruns, hnever, node, hnode, (hlater _ hnever).2⟩

end Patchwork
