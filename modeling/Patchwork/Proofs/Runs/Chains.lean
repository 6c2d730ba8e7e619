import Patchwork.Proofs.Environments
import Patchwork.Proofs.Expression.Meanings
import Patchwork.Proofs.Expression.Pipes
import Patchwork.Proofs.Runs.DefinedNames
import Patchwork.Proofs.Runs.LoadedMods

/-!
# Chains of procedures

A line may apply several procedures to a group, with an arrow in front of each.  It does what the
lines do that apply them one after the other: no procedure changes what the name of the group
stands for or how a later call is read, and each gets the group that the first one got.
-/

namespace Patchwork

open Agree.Computations (run_bind)

/-! ## What kind of line it is -/

/-- An operator that shares no character with names and arrows. -/
structure StandsApart (operator : List Char) : Prop where
  some : operator ≠ []
  apart : ∀ char ∈ operator, Text.isWord char = false ∧ char ∉ [' ', '-', '>']

theorem standsApart_of_all {operator : List Char} (hsome : operator ≠ [])
    (hall : (operator.all fun char => !Text.isWord char && !([' ', '-', '>'].contains char)) = true) :
    StandsApart operator where
  some := hsome
  apart char hchar := by simpa using List.all_eq_true.mp hall char hchar

theorem standsApart_definitionOperator : StandsApart definitionOperator :=
  standsApart_of_all (by decide) (by decide)

theorem standsApart_extractionOperator : StandsApart extractionOperator :=
  standsApart_of_all (by decide) (by decide)

namespace StandsApart

variable {operator : List Char} (hoperator : StandsApart operator)

include hoperator

theorem not_infix {chars : List Char}
    (hchars : ∀ char ∈ chars, Text.isWord char = true ∨ char ∈ [' ', '-', '>']) :
    ¬ operator <:+: chars := by
  intro hwithin
  obtain ⟨first, rest, rfl⟩ := List.exists_cons_of_ne_nil hoperator.some
  obtain ⟨hword, harrow⟩ := hoperator.apart first List.mem_cons_self
  obtain hnamed | hmem := hchars first (hwithin.subset List.mem_cons_self)
  · rw [hnamed] at hword
    cases hword
  · exact harrow hmem

/-- What occurs in a line with arrows does so in one of the texts between them. -/
theorem infix_of_arrowChars {front : List Char} {texts : List String}
    (hoccurs : operator <:+: front ++ arrowChars texts) :
    operator <:+: front ∨ ∃ text ∈ texts, operator <:+: text.toList := by
  induction texts generalizing front with
  | nil => exact .inl (by simpa [arrowChars] using hoccurs)
  | cons text texts ih =>
    have hblank : ' ' ∉ operator := fun hmem => (hoperator.apart ' ' hmem).2 (by simp)
    have hchars : front ++ arrowChars (text :: texts) =
        front ++ ' ' :: (['-', '>'] ++ ' ' :: (text.toList ++ arrowChars texts)) := by
      simp [arrowChars]
    rw [hchars] at hoccurs
    obtain hfront | hrest := Text.infix_of_gap hblank hoccurs
    · exact .inl hfront
    obtain hpair | hbehind := Text.infix_of_gap hblank hrest
    · exact absurd hpair (hoperator.not_infix fun char hchar => .inr (List.mem_cons_of_mem _ hchar))
    obtain htext | ⟨other, hother, hlater⟩ := ih hbehind
    · exact .inr ⟨text, List.mem_cons_self, htext⟩
    · exact .inr ⟨other, List.mem_cons_of_mem _ hother, hlater⟩

end StandsApart

/-- A name with an arrow behind it is no target. -/
theorem Target.ofText_ne_ok {name : String} (hname : IsDefinable name) {text : String}
    {behind : List Char} (htext : text.toList = name.toList ++ ' ' :: '-' :: '>' :: behind)
    (target : Target) : ofText text ≠ .ok target := by
  obtain ⟨first, others, hchars⟩ := List.exists_cons_of_ne_nil
    (fun hnil => hname.some (String.toList_eq_nil_iff.mp hnil) : name.toList ≠ [])
  have hblank : Text.isBlank first = false :=
    Text.isBlank_eq_false_of_isWord (hname.all first (hchars ▸ List.mem_cons_self))
  -- Blanks at the ends do not matter, since neither the name nor the arrow is one.
  obtain ⟨after, htrimmed⟩ : ∃ after,
      Text.trimChars text.toList = name.toList ++ ' ' :: '-' :: '>' :: after := by
    have hfront : name.toList ++ ' ' :: '-' :: '>' :: behind =
        (name.toList ++ [' ', '-']) ++ '>' :: behind := by simp
    refine ⟨Text.trimRight behind, ?_⟩
    rw [Text.trimChars, htext, hchars, List.cons_append, Text.trimLeft_cons_of_not_isBlank hblank,
      ← List.cons_append, ← hchars, hfront, Text.trimRight_append_of_not_isBlank (by decide)]
    simp
  have hend : ∀ char ∈ (' ' :: '-' :: '>' :: after).head?, Text.isWord char = false := by
    rintro char ⟨⟩
    decide
  have htake := Scan.takeWhile_append_of_ends hname.all hend
  have hdrop := Scan.dropWhile_append_of_ends hname.all hend
  have htable : tableEntry? (name.toList ++ ' ' :: '-' :: '>' :: after) = none := by
    have htrim : Text.trimLeft (' ' :: '-' :: '>' :: after) = '-' :: '>' :: after := rfl
    rw [ tableEntry?]
    simp only [htake, hdrop, htrim]
    rw [hchars]
    rfl
  have hword : (name.toList ++ ' ' :: '-' :: '>' :: after).all Text.isWord = false := by
    simp [show Text.isWord ' ' = false by decide]
  rw [ofText, htrimmed]
  simp only [htable, hword, Bool.and_false, Bool.false_eq_true, if_false]
  rintro ⟨⟩

/-! ## Reading the lines -/

/-- A text without the operators that make a definition or an extraction of a line. -/
def IsPlain (text : String) : Prop :=
  ¬ definitionOperator <:+: text.toList ∧ ¬ extractionOperator <:+: text.toList

namespace Statement

variable {names : Names} {name : String}

/-- What stands before another operator is no target, since it starts with the name and the
arrow. -/
theorem ofText_sides_ne_ok (hname : IsDefinable name) {operator : List Char}
    (hoperator : StandsApart operator) {line : String} {behind : List Char}
    (hline : line.toList = name.toList ++ ' ' :: '-' :: '>' :: behind)
    (hoccurs : Text.occursIn operator line.toList = true) (target : Target) :
    Target.ofText (sides operator line).1 ≠ .ok target := by
  have hsplit := toList_sides hoccurs
  have hfront : name.toList ++ ' ' :: '-' :: '>' :: behind =
      (name.toList ++ [' ', '-', '>']) ++ behind := by simp
  rw [hline, hfront, List.append_assoc] at hsplit
  obtain ⟨middle, hsame, hrest⟩ | ⟨middle, hsame, -⟩ := List.append_eq_append_iff.mp hsplit
  · cases middle with
    | nil =>
      have hleft : (sides operator line).1.toList = name.toList ++ ' ' :: '-' :: '>' :: [] := by
        rw [← List.append_nil (sides operator line).1.toList, ← hsame]
      exact Target.ofText_ne_ok hname hleft target
    | cons other middle =>
      obtain ⟨first, rest, rfl⟩ := List.exists_cons_of_ne_nil hoperator.some
      obtain ⟨rfl, -⟩ := List.cons.inj hrest
      have hmem : first ∈ name.toList ++ [' ', '-', '>'] := by rw [hsame]; simp
      obtain ⟨hword, harrow⟩ := hoperator.apart first List.mem_cons_self
      rcases List.mem_append.mp hmem with hnamed | hpair
      · rw [hname.all first hnamed] at hword
        cases hword
      · exact absurd hpair harrow
  · have hleft : (sides operator line).1.toList = name.toList ++ ' ' :: '-' :: '>' :: middle := by
      rw [hsame]
      simp
    exact Target.ofText_ne_ok hname hleft target

/-- A line that starts with a name and an arrow is no definition, and no extraction. -/
theorem not_occursIn_of_ofLine (hname : IsDefinable name) {line : String} {behind : List Char}
    (hline : line.toList = name.toList ++ ' ' :: '-' :: '>' :: behind) {statement : Statement}
    (hread : ofLine names line = .ok statement) :
    Text.occursIn definitionOperator line.toList = false ∧
      Text.occursIn extractionOperator line.toList = false := by
  have hdefinition : Text.occursIn definitionOperator line.toList = false := by
    rw [Bool.eq_false_iff]
    intro hoccurs
    rw [ofLine_definition (if_pos hoccurs)] at hread
    obtain ⟨target, htarget, -⟩ := exists_of_readDefinition hread
    exact ofText_sides_ne_ok hname standsApart_definitionOperator hline hoccurs target htarget
  refine ⟨hdefinition, ?_⟩
  rw [Bool.eq_false_iff]
  intro hoccurs
  have hkind : classifyLine line = .ok .extraction := by
    rw [classifyLine]
    simp only [hdefinition, hoccurs, Bool.false_eq_true, if_false, if_true]
  rw [ofLine_extraction hkind] at hread
  obtain ⟨target, -, htarget, -⟩ := exists_of_readExtraction hread
  exact ofText_sides_ne_ok hname standsApart_extractionOperator hline hoccurs target htarget

/-- The operators of definitions and extractions do not occur behind the name and the arrow. -/
theorem isPlain_of_ofLine (hname : IsDefinable name) {call : String} {statement : Statement}
    (hread : ofLine names (chainText name [call]) = .ok statement) : IsPlain call := by
  have hline : (chainText name [call]).toList =
      name.toList ++ ' ' :: '-' :: '>' :: ' ' :: call.toList := by
    simp [toList_chainText, arrowChars]
  have hcall : call.toList <:+: (chainText name [call]).toList :=
    ⟨name.toList ++ [' ', '-', '>', ' '], [], by simp [hline]⟩
  obtain ⟨hdefinition, hextraction⟩ := not_occursIn_of_ofLine hname hline hread
  rw [Bool.eq_false_iff, ne_eq, Text.occursIn_iff] at hdefinition hextraction
  exact ⟨fun hoccurs => hdefinition (hoccurs.trans hcall),
    fun hoccurs => hextraction (hoccurs.trans hcall)⟩

/-- A line that starts with a name and has arrows behind it applies procedures. -/
theorem ofLine_chainText (hname : IsDefinable name) {calls : List String} (hcalls : calls ≠ [])
    (hplain : ∀ call ∈ calls, IsPlain call) :
    ofLine names (chainText name calls) =
      readPipe names (chainText name calls) := by
  have hchars := toList_chainText name calls
  generalize chainText name calls = line at hchars ⊢
  have hnot : ∀ {operator : List Char}, StandsApart operator →
      (∀ call ∈ calls, ¬ operator <:+: call.toList) →
      Text.occursIn operator line.toList = false := by
    intro operator hoperator hcalls
    rw [Bool.eq_false_iff, ne_eq, Text.occursIn_iff, hchars]
    intro hoccurs
    obtain hfront | ⟨call, hcall, hinside⟩ := hoperator.infix_of_arrowChars hoccurs
    · exact hoperator.not_infix (fun char hchar => .inl (hname.all char hchar)) hfront
    · exact hcalls call hcall hinside
  have hdefinition := hnot standsApart_definitionOperator fun call hcall => (hplain call hcall).1
  have hextraction := hnot standsApart_extractionOperator fun call hcall => (hplain call hcall).2
  obtain ⟨first, others, hfirst⟩ := List.exists_cons_of_ne_nil
    (fun hnil => hname.some (String.toList_eq_nil_iff.mp hnil) : name.toList ≠ [])
  have hcommand : line.toList.head? ≠ some '@' := by
    rw [hchars, hfirst]
    rintro ⟨⟩
    have hword := hname.all '@' (by rw [hfirst]; exact List.mem_cons_self)
    cases hword
  have harrow : Text.occursIn pipeOperator line.toList = true := by
    obtain ⟨call, calls, rfl⟩ := List.exists_cons_of_ne_nil hcalls
    rw [Text.occursIn_iff, hchars]
    exact ⟨name.toList ++ [' '], ' ' :: call.toList ++ arrowChars calls,
      by simp [pipeOperator, arrowChars]⟩
  refine ofLine_procedure ?_
  rw [classifyLine]
  simp only [hdefinition, hextraction, hcommand, harrow, Bool.false_eq_true, if_false, if_true]

end Statement

/-! ## Carrying the lines out -/

/-- Applies the procedure behind an arrow. -/
def PipeStep.applyTo (deeper : Deeper) (setting : Setting) (left : Value) (step : PipeStep) :
    Eval Unit := do
  let group ← Eval.labelled (left.expectGroup · "left side of ->")
  step.procedure.apply deeper.call (argumentsWith deeper setting step.arguments) group step.pairwise

/-- Each procedure behind an arrow is applied to what stands in front of the first arrow. -/
theorem Node.evaluateWith_piped (deeper : Deeper) (setting : Setting) (left : Node)
    (steps : List PipeStep) (record : Option RecordRef) :
    (left.piped steps).evaluateWith deeper setting record = do
      let value ← left.evaluateWith deeper setting record
      steps.forM (PipeStep.applyTo deeper setting value)
      return value := by
  induction steps generalizing left with
  | nil =>
    change _ = _ >>= fun value => pure value
    rw [bind_pure]
    rfl
  | cons step steps ih =>
    rw [Node.piped_cons, ih, Node.evaluateWith]
    simp only [pipeInto, PipeStep.applyTo, List.forM, bind_assoc, pure_bind]

/-- The line that applies procedures to a group. -/
def Statement.piping (group : Group) (steps : List PipeStep) : Statement :=
  .invoke ((Node.group group).piped steps)

/-- Applies the procedures to the group. -/
def Setting.applySteps (setting : Setting) (group : Group) (steps : List PipeStep) : Eval Unit :=
  steps.forM (PipeStep.applyTo (deeperAt setting nestingLimit) setting (.group group))

theorem Setting.applySteps_append (setting : Setting) (group : Group) (steps more : List PipeStep) :
    setting.applySteps group (steps ++ more) =
      (setting.applySteps group steps >>= fun _ => setting.applySteps group more) :=
  List.forM_append

theorem evaluate_piped (setting : Setting) (group : Group) (steps : List PipeStep) :
    ((Node.group group).piped steps).evaluate setting none = do
      setting.applySteps group steps
      return .group group := by
  rw [Node.evaluate, Node.evaluateWith_piped, Node.evaluateWith, pure_bind]
  rfl

/-- The patcher after what is defined has been listed, if it has not been before. -/
def Patcher.withList (patcher : Patcher) : Patcher :=
  (listDefinitions.run patcher).2

theorem run_listDefinitions (patcher : Patcher) :
    listDefinitions.run patcher = (.ok (), patcher.withList) ∧ patcher.withList.listed = true ∧
      patcher.withList.setting = patcher.setting := by
  have hnotes : ∀ (texts : List String) (patcher : Patcher), ∃ world,
      (texts.forM fun text => Run.note .debug .context text : Run PUnit).run patcher =
        (.ok (), { patcher with world := world }) := by
    intro texts
    induction texts with
    | nil => exact fun patcher => ⟨patcher.world, rfl⟩
    | cons text rest ih => exact fun patcher => ih (patcher.note .debug .context text)
  cases hlisted : patcher.listed with
  | true =>
    have hrun : listDefinitions.run patcher = (.ok (), patcher) := by
      rw [listDefinitions, run_bind]
      change (if !patcher.listed then _ else _ : Run Unit).run patcher = _
      rw [hlisted]
      rfl
    rw [Patcher.withList, hrun]
    exact ⟨rfl, hlisted, rfl⟩
  | false =>
    have hrun : ∃ world, listDefinitions.run patcher =
        (.ok (), { patcher with listed := true, world := world }) := by
      obtain ⟨world, hworld⟩ := hnotes
        (definitionTexts patcher.environment patcher.world.pool.label) { patcher with listed := true }
      refine ⟨world, ?_⟩
      rw [listDefinitions, run_bind]
      change (if !patcher.listed then _ else _ : Run Unit).run patcher = _
      rw [hlisted]
      exact hworld
    obtain ⟨world, hworld⟩ := hrun
    rw [Patcher.withList, hworld]
    exact ⟨rfl, rfl, rfl⟩

theorem withList_of_listed {patcher : Patcher} (hlisted : patcher.listed = true) :
    patcher.withList = patcher := by
  rw [Patcher.withList, listDefinitions, run_bind]
  change ((if !patcher.listed then _ else _ : Run Unit).run patcher).2 = _
  rw [hlisted]
  rfl

/-- Applying procedures lists what is defined first and then changes nothing but the world. -/
theorem run_piping (patcher : Patcher) (group : Group) {steps : List PipeStep} (hsteps : steps ≠ []) :
    (Statement.piping group steps).execute.run patcher =
      let applied := (patcher.setting.applySteps group steps).run patcher.withList.world
      (applied.1, { patcher.withList with world := applied.2 }) := by
  obtain ⟨hlist, -, hsetting⟩ := run_listDefinitions patcher
  have hexecute : (Statement.piping group steps).execute = (do
      listDefinitions
      let _ ← Run.evaluate fun setting => ((Node.group group).piped steps).evaluate setting none) := by
    obtain ⟨first, last, rfl⟩ := List.eq_nil_or_concat steps |>.resolve_left hsteps
    rw [Statement.piping, List.concat_eq_append, Node.piped_append]
    rfl
  rw [hexecute, run_bind, hlist]
  dsimp only
  rw [run_bind, Run.run_evaluate, hsetting, evaluate_piped, run_bind]
  generalize (patcher.setting.applySteps group steps).run patcher.withList.world = applied
  obtain ⟨outcome, world⟩ := applied
  cases outcome <;> rfl

/-- Applying procedures and then others is applying all of them. -/
theorem run_piping_append (patcher : Patcher) (group : Group) {steps more : List PipeStep}
    (hsteps : steps ≠ []) (hmore : more ≠ []) :
    (Statement.piping group (steps ++ more)).execute.run patcher =
      ((Statement.piping group steps).execute >>= fun _ =>
        (Statement.piping group more).execute : Run Unit).run patcher := by
  obtain ⟨-, hlisted, hsetting⟩ := run_listDefinitions patcher
  rw [run_bind, run_piping patcher group hsteps,
    run_piping patcher group (List.append_ne_nil_of_left_ne_nil hsteps more),
    Setting.applySteps_append, run_bind]
  generalize (patcher.setting.applySteps group steps).run patcher.withList.world = applied
  obtain ⟨outcome, world⟩ := applied
  cases outcome with
  | error fault => rfl
  | ok result =>
    dsimp only
    have hwith : Patcher.withList { patcher.withList with world := world } =
        { patcher.withList with world := world } :=
      withList_of_listed hlisted
    have hsame : Patcher.setting { patcher.withList with world := world } = patcher.setting := hsetting
    rw [run_piping _ group hmore, hwith, hsame]

/-! ## Chains -/

section

variable {patcher : Patcher} {name : String} {group : Group}

/-- What is read from a line that applies a procedure to a group. -/
theorem exists_pipe (hname : IsDefinable name)
    (hgroup : patcher.environment.lookup? name = some (.group group)) {call : String}
    {statement : Statement}
    (hread : Statement.ofLine patcher.names (chainText name [call]) = .ok statement) :
    IsWord name ∧ Scan.wordKind name = .identifier ∧ ∃ pipe : PipeText patcher.names,
      pipe.text = call ∧ pipe.steps ≠ [] ∧ IsPlain pipe.text := by
  have hplain := Statement.isPlain_of_ofLine hname hread
  rw [Statement.ofLine_chainText hname (List.cons_ne_nil _ _) (by simpa using hplain)] at hread
  obtain ⟨left, procedure, arguments, pairwise, hnode, -⟩ := Statement.exists_of_readPipe hread
  obtain ⟨hword, hkind, pipe, rfl, hpiped⟩ :=
    PipeText.exists_of_ofText hname.some hname.all List.not_mem_nil hgroup hnode
  refine ⟨hword, hkind, pipe, rfl, fun hnone => ?_, hplain⟩
  rw [hnone] at hpiped
  cases hpiped

variable (hname : IsDefinable name) (hword : IsWord name)
  (hkind : Scan.wordKind name = .identifier)
  (hgroup : patcher.environment.lookup? name = some (.group group))

include hname hword hkind hgroup

/-- As long as the same is defined, a chain is read as all procedures behind its arrows. -/
theorem ofLine_pipes {later : Patcher} (hlater : later.environment = patcher.environment)
    {pipes : List (PipeText patcher.names)} (hsome : pipes ≠ [])
    (hpipes : ∀ pipe ∈ pipes, pipe.steps ≠ [] ∧ IsPlain pipe.text) :
    Statement.ofLine later.names (chainText name (pipes.map PipeText.text)) =
      .ok (.piping group (pipes.flatMap PipeText.steps)) := by
  have hagree : patcher.names.Agree later.names :=
    ⟨rfl, fun other _ => congrArg (·.lookup? other) hlater⟩
  have hnode := Node.ofText_of_agree hagree
    (PipeText.ofText_chainText hword hkind List.not_mem_nil hgroup pipes)
  have hsteps : pipes.flatMap PipeText.steps ≠ [] := by
    obtain ⟨pipe, others, rfl⟩ := List.exists_cons_of_ne_nil hsome
    exact List.append_ne_nil_of_left_ne_nil (hpipes pipe List.mem_cons_self).1 _
  have hcalls : ∀ call ∈ pipes.map PipeText.text, IsPlain call := by
    intro call hcall
    obtain ⟨pipe, hpipe, rfl⟩ := List.mem_map.mp hcall
    exact (hpipes pipe hpipe).2
  rw [Statement.ofLine_chainText hname (by simpa using hsome) hcalls, Statement.readPipe, hnode]
  obtain ⟨first, last, hsplit⟩ :=
    List.eq_nil_or_concat (pipes.flatMap PipeText.steps) |>.resolve_left hsteps
  rw [Statement.piping, hsplit, List.concat_eq_append, Node.piped_append]
  rfl

/-- A chain does what its procedures do one line after the other. -/
theorem run_pipes {later : Patcher} (hlater : later.environment = patcher.environment)
    {pipes : List (PipeText patcher.names)} (hsome : pipes ≠ [])
    (hpipes : ∀ pipe ∈ pipes, pipe.steps ≠ [] ∧ IsPlain pipe.text) :
    (executeLine (chainText name (pipes.map PipeText.text))).run later =
      ((pipes.map fun pipe => chainText name [pipe.text]).forM executeLine).run later := by
  induction pipes generalizing later with
  | nil => exact absurd rfl hsome
  | cons pipe pipes ih =>
    obtain ⟨hpipe, hothers⟩ := List.forall_mem_cons.mp hpipes
    have hfirst := ofLine_pipes hname hword hkind hgroup hlater (List.cons_ne_nil pipe [])
      (by simpa using hpipe)
    rw [List.flatMap_cons, List.flatMap_nil, List.append_nil] at hfirst
    have hlines : ((pipe :: pipes).map fun pipe => chainText name [pipe.text]).forM executeLine =
        (executeLine (chainText name ([pipe].map PipeText.text)) >>= fun _ =>
          (pipes.map fun pipe => chainText name [pipe.text]).forM executeLine) := rfl
    rw [hlines]
    cases pipes with
    | nil => exact (congrArg (·.run later) (bind_pure (executeLine _))).symm
    | cons next pipes =>
      have hall := ofLine_pipes hname hword hkind hgroup hlater (List.cons_ne_nil pipe (next :: pipes))
        hpipes
      have hmore : (next :: pipes).flatMap PipeText.steps ≠ [] :=
        List.append_ne_nil_of_left_ne_nil (hothers next List.mem_cons_self).1 _
      rw [List.flatMap_cons] at hall
      rw [run_executeLine_of_read hall, run_piping_append _ _ hpipe.1 hmore, run_bind, run_bind,
        run_executeLine_of_read hfirst]
      have hsame := bindsNothing_invoke ((Node.group group).piped pipe.steps) later
      rw [← Statement.piping] at hsame
      generalize (Statement.piping group pipe.steps).execute.run later = ran at hsame ⊢
      rcases ran with ⟨fault | result, between⟩
      · rfl
      · have hbetween : between.environment = patcher.environment := hsame.trans hlater
        dsimp only
        rw [← ih hbetween (List.cons_ne_nil _ _) hothers, run_executeLine_of_read
          (ofLine_pipes hname hword hkind hgroup hbetween (List.cons_ne_nil _ _) hothers)]

end

/-- Whatever lines there have been, a line that applies procedures to a group one after the other
does what the lines do that apply one procedure each, if each of these can be read: the same
fault or none, and the same state after it. -/
theorem executeLine_chain {start : Patcher} (hstart : start.environment = {}) (lines : List String)
    {name : String} {group : Group}
    (hgroup : (start.leftBy lines).environment.lookup? name = some (.group group))
    {calls : List String} (hcalls : calls ≠ [])
    (hreads : ∀ call ∈ calls, ∃ statement,
      Statement.ofLine (start.leftBy lines).names (chainText name [call]) = .ok statement) :
    (executeLine (chainText name calls)).run (start.leftBy lines) =
      ((calls.map fun call => chainText name [call]).forM executeLine).run (start.leftBy lines) := by
  have hnothing : start.environment.Definable := by
    rw [hstart]
    exact nofun
  have hname := definable_leftBy hnothing lines name _ hgroup
  generalize start.leftBy lines = patcher at hgroup hreads ⊢
  have hpipes : ∃ pipes : List (PipeText patcher.names), pipes.map PipeText.text = calls ∧
      ∀ pipe ∈ pipes, pipe.steps ≠ [] ∧ IsPlain pipe.text := by
    clear hcalls
    induction calls with
    | nil => exact ⟨[], rfl, nofun⟩
    | cons call calls ih =>
      obtain ⟨⟨statement, hread⟩, hothers⟩ := List.forall_mem_cons.mp hreads
      obtain ⟨pipes, rfl, hpipes⟩ := ih hothers
      obtain ⟨-, -, pipe, rfl, hsteps, hplain⟩ := exists_pipe hname hgroup hread
      exact ⟨pipe :: pipes, rfl, List.forall_mem_cons.mpr ⟨⟨hsteps, hplain⟩, hpipes⟩⟩
  obtain ⟨pipes, rfl, hpipes⟩ := hpipes
  obtain ⟨pipe, others, rfl⟩ := List.exists_cons_of_ne_nil (mt (congrArg (List.map PipeText.text)) hcalls)
  obtain ⟨statement, hread⟩ := hreads pipe.text List.mem_cons_self
  obtain ⟨hword, hkind, -⟩ := exists_pipe hname hgroup hread
  rw [List.map_map]
  exact run_pipes hname hword hkind hgroup rfl (List.cons_ne_nil _ _) hpipes

/-- A call for each line of the script that fails at its last line. -/
def bluntingCalls : List String :=
  ["SetField(\"damage\", \"1\")", "DeleteRecords()", "SetField(\"weight\", \"2\")"]

theorem executeLine_chain_blunting :
    let reached := (armourer.reset.start sharper).leftBy (blunting.take 1)
    (executeLine (chainText "blades" bluntingCalls)).run reached =
      ((bluntingCalls.map fun call => chainText "blades" [call]).forM executeLine).run reached := by
  have hdefined : (((armourer.reset.start sharper).leftBy (blunting.take 1)).environment.group
      "blades").toOption = some ⟨[⟨"base", ⟨1⟩⟩]⟩ := by
    decide +kernel
  have hgroup := Environment.lookup?_of_group (eq_ok_of_toOption hdefined)
  have hreads : ∀ call ∈ bluntingCalls, ((Statement.ofLine ((armourer.reset.start sharper).leftBy
      (blunting.take 1)).names (chainText "blades" [call])).toOption.isSome) = true := by
    decide +kernel
  refine executeLine_chain rfl _ hgroup nofun fun call hcall => ?_
  obtain ⟨statement, hread⟩ := Option.isSome_iff_exists.mp (hreads call hcall)
  exact ⟨statement, eq_ok_of_toOption hread⟩

end Patchwork
