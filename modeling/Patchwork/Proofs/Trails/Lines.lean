import Patchwork.Proofs.Provenance.Queries
import Patchwork.Proofs.Runs.Bindings
import Patchwork.Proofs.Runs.LoadedMods
import Patchwork.Proofs.Runs.Outcomes
import Patchwork.Proofs.Trails.Evaluation

/-!
# Lines keep to the rules

If every statement of a script obeys the rules, then moves that obey them lead from each
point of its run to every later one, also to the line that fails or asks to stop, and
everything that is defined on the way obeys the rules.
-/

namespace Patchwork

open Agree.Computations (run_bind)

variable {repository : Repository} {rules : Rules}

/-! ## Queries and extractions -/

/-- Merged records lie beyond all records there are. -/
theorem keeps_placed (rules : Rules) {mods : List Mod} (hmods : mods ⊆ repository.list)
    (kind : String) (outcomeOf : Pool → Merge.Outcome)
    (houtcome : ∀ pool, outcomeOf pool = Merge.mergeAll pool (Repository.collect pool kind mods)) :
    (do
      let pool := (← get).pool
      return (← Eval.place (outcomeOf pool), (outcomeOf pool).orphans) :
        Eval (Group × List String)).Keeps repository rules fun merged =>
          rules.Admits merged.1 where
  leads before _ := by
    refine World.Leads.single (.placed mods kind) ⟨hmods, rfl, ?_⟩ trivial
    rw [← houtcome]
    rfl
  meets before hsize := meets_ok fun ref href =>
    Nat.le_trans hsize (Nat.not_lt.mp (Merge.fresh_place _ before.pool ref href).1)

theorem keeps_mergedRecords (selector kind : String) :
    (mergedRecords repository selector kind).Keeps repository rules fun merged =>
      rules.Admits merged.1 := by
  have hmods : (repository.select selector).1 ⊆ repository.list :=
    fun _ hmod => Repository.mem_of_mem_select hmod
  have hplaced := keeps_placed rules hmods kind (fun pool => Merge.mergeAll pool
    (Repository.collect pool kind (repository.select selector).1)) fun _ => rfl
  unfold mergedRecords
  dsimp only at hplaced ⊢
  cases Repository.missingNotice? (repository.select selector).2 with
  | none => exact hplaced
  | some notice =>
    have hnotice : (modify fun world : World =>
        { world with journal := world.journal.push notice } : Eval PUnit).Keeps repository rules
          fun _ => True := Eval.keeps_modify (fun _ => rfl) fun _ => rfl
    exact hnotice.andThen fun _ => hplaced

section

variable {condition : RecordRef → Eval Bool}
  (hcondition : ∀ record, (condition record).Keeps repository rules fun _ => True)

include hcondition

theorem keeps_keepMatches (mode : SelectionMode) (members : List Member) :
    (keepMatches mode condition members).Keeps repository rules fun kept =>
      kept.Sublist members := by
  induction members with
  | nil => exact Eval.keeps_pure (List.Sublist.refl [])
  | cons member rest ih =>
    refine (hcondition member.record).andThen fun accepted => ?_
    cases accepted with
    | false => exact ih.mono fun _ hkept => hkept.cons member
    | true =>
      cases mode with
      | firstMatch => exact Eval.keeps_pure ((List.nil_sublist rest).cons_cons member)
      | allMatches => exact ih.bind fun kept hkept => Eval.keeps_pure (hkept.cons_cons member)

theorem keeps_splitMembers (members : List Member) :
    (splitMembers condition members).Keeps repository rules fun parted =>
      parted.1.Sublist members ∧ parted.2.Sublist members := by
  induction members with
  | nil => exact Eval.keeps_pure ⟨List.Sublist.refl [], List.Sublist.refl []⟩
  | cons member rest ih =>
    refine (hcondition member.record).andThen fun accepted => ?_
    refine ih.bind fun parted hparted => Eval.keeps_pure ?_
    cases accepted with
    | false => exact ⟨hparted.1.cons_cons member, hparted.2.cons member⟩
    | true => exact ⟨hparted.1.cons member, hparted.2.cons_cons member⟩

theorem keeps_resolveGroup (selector kind : String) (mode : SelectionMode) :
    (resolveGroup repository selector kind condition mode).Keeps repository rules
      rules.Admits := by
  refine (keeps_mergedRecords selector kind).bind fun merged hmerged => ?_
  refine (keeps_keepMatches hcondition mode merged.1.members).bind fun kept hkept => ?_
  exact (Eval.keeps_note ..).andThen fun _ => Eval.keeps_pure (hmerged.sublist hkept)

end

/-! ## Steps of a run -/

/-- Everything that is defined obeys the rules, and all further records lie where records of
groups may. -/
structure Patcher.Obeys (patcher : Patcher) (rules : Rules) : Prop where
  environment : patcher.environment.Obeys rules
  first : rules.first ≤ patcher.world.pool.records.size

/-- Moves that obey the rules lead from one point of a run to another. -/
structure Patcher.LeadsUnder (rules : Rules) (before after : Patcher) : Prop where
  repository : after.repository = before.repository
  world : before.world.Leads before.repository rules after.world

namespace Patcher.LeadsUnder

variable {before between after : Patcher}

theorem refl (patcher : Patcher) : LeadsUnder rules patcher patcher :=
  ⟨rfl, World.Leads.refl ..⟩

theorem trans (hfirst : LeadsUnder rules before between)
    (hsecond : LeadsUnder rules between after) : LeadsUnder rules before after where
  repository := hsecond.repository.trans hfirst.repository
  world := hfirst.world.trans (hfirst.repository ▸ hsecond.world)

theorem first_le (hleads : LeadsUnder rules before after)
    (hfirst : rules.first ≤ before.world.pool.records.size) :
    rules.first ≤ after.world.pool.records.size :=
  Nat.le_trans hfirst hleads.world.size_le

end Patcher.LeadsUnder

namespace Run

variable {Result Other Item : Type}

/-- A step leads along moves that obey the rules, whether it fails or not, and leaves
everything that is defined obeying them; it gives something with a property, or fails with
an ordinary fault. -/
structure Keeps (rules : Rules) (before : Patcher) (step : Run Result)
    (gives : Result → Prop) : Prop where
  leads : Patcher.LeadsUnder rules before (step.run before).2
  environment : (step.run before).2.environment.Obeys rules
  meets : Meets (step.run before).1 gives

variable {before : Patcher} {step : Run Result} {gives : Result → Prop}
  {givesNext : Other → Prop}

theorem Keeps.obeys (hkeeps : step.Keeps rules before gives) (hbefore : before.Obeys rules) :
    (step.run before).2.Obeys rules :=
  ⟨hkeeps.environment, hkeeps.leads.first_le hbefore.first⟩

theorem Keeps.bind {next : Result → Run Other} (hbefore : before.Obeys rules)
    (hfirst : step.Keeps rules before gives)
    (hnext : ∀ result between, step.run before = (.ok result, between) → between.Obeys rules →
      gives result → (next result).Keeps rules between givesNext) :
    Keeps rules before (step >>= next) givesNext := by
  have hbetween := hfirst.obeys hbefore
  obtain ⟨hleads, henvironment, hmeets⟩ := hfirst
  rcases hrun : step.run before with ⟨fault | given, between⟩
  · have hfails : (step >>= next).run before = (.error fault, between) := by
      rw [run_bind, hrun]
    rw [hrun] at hleads henvironment hmeets
    exact ⟨by rw [hfails]; exact hleads, by rw [hfails]; exact henvironment,
      by rw [hfails]; exact meets_error (hmeets.ordinary fault rfl)⟩
  · have hruns : (step >>= next).run before = (next given).run between := by
      rw [run_bind, hrun]
    rw [hrun] at hleads hmeets hbetween
    have hrest := hnext given between hrun hbetween (hmeets.gives given rfl)
    exact ⟨by rw [hruns]; exact hleads.trans hrest.leads, by rw [hruns]; exact hrest.environment,
      by rw [hruns]; exact hrest.meets⟩

/-- A step that leaves the records and the mod alone. -/
theorem keeps_of_rest (hbefore : before.Obeys rules)
    (hrepository : (step.run before).2.repository = before.repository)
    (hpool : (step.run before).2.world.pool = before.world.pool)
    (hactive : (step.run before).2.world.active = before.world.active)
    (henvironment : (step.run before).2.environment = before.environment)
    (hmeets : Meets (step.run before).1 gives) : step.Keeps rules before gives where
  leads := ⟨hrepository, World.Leads.of_rest hpool hactive⟩
  environment := henvironment ▸ hbefore.environment
  meets := hmeets

section

variable (hbefore : before.Obeys rules)

include hbefore

theorem keeps_pure {result : Result} (hresult : gives result) :
    (pure result : Run Result).Keeps rules before gives :=
  keeps_of_rest hbefore rfl rfl rfl rfl (meets_ok hresult)

theorem keeps_get : (get : Run Patcher).Keeps rules before fun _ => True :=
  keeps_of_rest hbefore rfl rfl rfl rfl (meets_ok trivial)

theorem keeps_note (level : Level) (source : Source) (text : String) :
    (note level source text).Keeps rules before fun _ => True :=
  keeps_of_rest hbefore rfl rfl rfl rfl (meets_ok trivial)

theorem keeps_evaluate {evaluation : Setting → Eval Result}
    (hevaluation : (evaluation before.setting).Keeps before.repository rules gives) :
    (evaluate evaluation).Keeps rules before gives := by
  have hleads := hevaluation.leads before.world hbefore.first
  have hmeets := hevaluation.meets before.world hbefore.first
  have hrun := run_evaluate evaluation before
  rcases hran : (evaluation before.setting).run before.world with ⟨fault | given, world⟩ <;>
    rw [hran] at hrun hleads hmeets
  · exact ⟨by rw [hrun]; exact ⟨rfl, hleads⟩, by rw [hrun]; exact hbefore.environment,
      by rw [hrun]; exact meets_error (hmeets.ordinary fault rfl)⟩
  · exact ⟨by rw [hrun]; exact ⟨rfl, hleads⟩, by rw [hrun]; exact hbefore.environment,
      by rw [hrun]; exact meets_ok (hmeets.gives given rfl)⟩

end

theorem keeps_redefine {change : Environment → Environment}
    (hchange : (change before.environment).Obeys rules) :
    (redefine change).Keeps rules before fun _ => True :=
  ⟨⟨rfl, World.Leads.refl ..⟩, hchange, meets_ok trivial⟩

theorem keeps_forM {step : Item → Run PUnit} (items : List Item) {before : Patcher}
    (hbefore : before.Obeys rules)
    (hstep : ∀ item between, between.Obeys rules → (step item).Keeps rules between fun _ => True) :
    (items.forM step).Keeps rules before fun _ => True := by
  induction items generalizing before with
  | nil => exact keeps_pure hbefore trivial
  | cons item rest ih =>
    exact (hstep item before hbefore).bind hbefore fun _ _ _ hbetween _ => ih hbetween

end Run

/-! ## Statements -/

section

variable {before : Patcher} (hbefore : before.Obeys rules)

include hbefore

theorem Patcher.Obeys.keeps_evaluate {node : Node} (hnode : node.Obeys rules)
    (record : Option RecordRef) :
    (node.evaluate before.setting record).Keeps before.repository rules (Value.Obeys rules) := by
  have henvironment : before.setting.environment.Obeys rules := hbefore.environment
  exact Node.kept_evaluate henvironment hnode record

theorem Patcher.Obeys.keeps_holds {node : Node} (hnode : node.Obeys rules) (purpose : String)
    (record : RecordRef) :
    (node.holds before.setting purpose record).Keeps before.repository rules fun _ => True := by
  have henvironment : before.setting.environment.Obeys rules := hbefore.environment
  exact Node.keeps_holds henvironment hnode purpose record

theorem keeps_listDefinitions : listDefinitions.Keeps rules before fun _ => True := by
  refine (Run.keeps_get hbefore).bind hbefore fun patcher between hsame hbetween _ => ?_
  cases hsame
  split
  · have hset : (set { before with listed := true } : Run PUnit).Keeps rules before
        fun _ => True := Run.keeps_of_rest hbefore rfl rfl rfl rfl (meets_ok trivial)
    refine hset.bind hbefore fun _ later _ hlater _ => ?_
    exact Run.keeps_forM _ hlater fun text last hlast => Run.keeps_note hlast ..
  · exact Run.keeps_pure hbefore trivial

theorem keeps_assign (target : Target) {node : Node} (hnode : node.Obeys rules) :
    (assign target node).Keeps rules before fun _ => True := by
  unfold assign
  cases target.key with
  | some key => exact Run.keeps_redefine (hbefore.environment.setTableEntry hnode _ _)
  | none =>
    refine (Run.keeps_evaluate hbefore (hbefore.keeps_evaluate hnode none)).bind
      hbefore fun value between _ hbetween hvalue => ?_
    exact Run.keeps_redefine (hbetween.environment.define hvalue _)

theorem keeps_partition (name : String) {condition : Node} (hcondition : condition.Obeys rules)
    (purpose : String) :
    (partition name fun setting => condition.holds setting purpose).Keeps rules before
      fun parted => rules.Admits parted.2 := by
  have hevaluation : Eval.Keeps before.repository rules (do
      let source ← Eval.settle (before.environment.group name)
      let parted ← splitMembers (condition.holds before.setting purpose) source.members
      return (source, parted.1, parted.2))
      fun parted => rules.Admits ⟨parted.2.1⟩ ∧ rules.Admits ⟨parted.2.2⟩ := by
    refine (Eval.keeps_settle (Environment.meets_group _ name)).bind fun source hsource => ?_
    have hadmits : rules.Admits source := hbefore.environment.of_group hsource
    refine (keeps_splitMembers (hbefore.keeps_holds hcondition purpose) source.members).bind
      fun parted hparted => Eval.keeps_pure ?_
    exact ⟨hadmits.sublist hparted.1, hadmits.sublist hparted.2⟩
  refine (Run.keeps_evaluate hbefore hevaluation).bind hbefore
    fun parted between _ hbetween hadmits => ?_
  have hredefine : (Run.redefine fun environment =>
      environment.define name (.group ⟨parted.2.1⟩)).Keeps rules between fun _ => True :=
    Run.keeps_redefine (hbetween.environment.define (show Value.Obeys rules (.group _) from
      hadmits.1) name)
  refine hredefine.bind hbetween fun _ defined _ hdefined _ => ?_
  refine (Run.keeps_note hdefined ..).bind hdefined fun _ last _ hlast _ => ?_
  exact Run.keeps_pure hlast hadmits.2

/-- A statement that obeys the rules keeps to them. -/
theorem Statement.keeps_execute {statement : Statement}
    (hstatement : statement.node.Obeys rules) :
    statement.execute.Keeps rules before fun _ => True := by
  cases statement with
  | define target expression => exact keeps_assign hbefore target hstatement
  | query target found =>
    have hevaluation := keeps_resolveGroup (hbefore.keeps_holds hstatement "group condition")
      found.selector found.definition.kind found.definition.mode
    refine (Run.keeps_evaluate hbefore hevaluation).bind hbefore
      fun group between _ hbetween hgroup => ?_
    exact keeps_assign hbetween target hgroup
  | extract target source condition =>
    refine (keeps_partition hbefore source hstatement _).bind hbefore
      fun parted between _ hbetween htaken => ?_
    exact keeps_assign hbetween target htaken
  | invoke expression =>
    have hevaluate : ∀ {between : Patcher}, between.Obeys rules →
        (do let _ ← Run.evaluate fun setting => expression.evaluate setting none :
          Run Unit).Keeps rules between fun _ => True := by
      intro between hbetween
      refine (Run.keeps_evaluate hbetween (hbetween.keeps_evaluate hstatement none)).bind
        hbetween fun _ last _ hlast _ => ?_
      exact Run.keeps_pure hlast trivial
    unfold Statement.execute
    cases expression with
    | pipe left procedure arguments pairwise =>
      exact (keeps_listDefinitions hbefore).bind hbefore fun _ _ _ hbetween _ =>
        hevaluate hbetween
    | _ => exact hevaluate hbefore

end

/-! ## Scripts -/

namespace Patcher

/-- The statements that lines are read as, up to the line that fails or asks to stop. -/
def statements (patcher : Patcher) : List String → List Statement
  | [] => []
  | raw :: rest =>
    if patcher.world.stopping then []
    else if isStatement raw then
      match Statement.ofLine patcher.names (stripComment raw) with
      | .error _ => []
      | .ok statement =>
        statement :: if (patcher.lineFault? raw).isSome then [] else
          (patcher.afterLine raw).statements rest
    else patcher.statements rest

/-- Further lines do not change what the lines before them are read as. -/
theorem statements_prefix (patcher : Patcher) (earlier later : List String) :
    patcher.statements earlier <+: patcher.statements (earlier ++ later) := by
  induction earlier generalizing patcher with
  | nil => exact List.nil_prefix
  | cons raw rest ih =>
    rw [List.cons_append, statements, statements]
    by_cases hstopping : patcher.world.stopping = true
    · rw [if_pos hstopping]
      exact List.nil_prefix
    rw [if_neg hstopping, if_neg hstopping]
    by_cases hstatement : isStatement raw = true
    · rw [if_pos hstatement, if_pos hstatement]
      cases Statement.ofLine patcher.names (stripComment raw) with
      | error fault => exact List.nil_prefix
      | ok statement =>
        refine List.cons_prefix_cons.mpr ⟨rfl, ?_⟩
        split
        · exact List.nil_prefix
        · exact ih (patcher.afterLine raw)
    · rw [if_neg hstatement, if_neg hstatement]
      exact ih patcher

/-- Every procedure that is written in the statements of some lines may be called. -/
def Permits (patcher : Patcher) (rules : Rules) (lines : List String) : Prop :=
  ∀ statement ∈ patcher.statements lines, statement.node.Permitted rules

theorem Permits.left {patcher : Patcher} {earlier : List String} (later : List String)
    (hpermits : patcher.Permits rules (earlier ++ later)) : patcher.Permits rules earlier :=
  fun statement hstatement =>
    hpermits statement ((patcher.statements_prefix earlier later).subset hstatement)

end Patcher

/-- No rule forbids a procedure. -/
theorem Rules.free_permits (patcher : Patcher) (lines : List String) :
    patcher.Permits Rules.free lines :=
  fun _ _ _ _ => trivial

/-! ### One line -/

section

variable {before : Patcher} {raw line : String} {rest : List String}

theorem run_executeLine (before : Patcher) (line : String) :
    (executeLine line).run before =
      match Statement.ofLine before.names line with
      | .error fault => (.error fault, before)
      | .ok statement => statement.execute.run before := by
  rw [executeLine, run_bind]
  change (match Statement.ofLine before.names line with
    | .error fault => throw fault
    | .ok statement => statement.execute : Run Unit).run before = _
  cases Statement.ofLine before.names line <;> rfl

theorem Patcher.obeys_ofLine (hbefore : before.Obeys rules) {statement : Statement}
    (hread : Statement.ofLine before.names line = .ok statement)
    (hpermitted : statement.node.Permitted rules) : statement.node.Obeys rules :=
  Statement.holds_ofLine (obeys_readingClosed hbefore.environment) hread hpermitted

theorem executeLine_leads (hbefore : before.Obeys rules)
    (hpermitted : ∀ statement, Statement.ofLine before.names line = .ok statement →
      statement.node.Permitted rules) :
    before.LeadsUnder rules ((executeLine line).run before).2 ∧
      ((executeLine line).run before).2.Obeys rules := by
  rw [run_executeLine]
  cases hread : Statement.ofLine before.names line with
  | error fault => exact ⟨Patcher.LeadsUnder.refl before, hbefore⟩
  | ok statement =>
    have hkeeps := Statement.keeps_execute hbefore
      (Patcher.obeys_ofLine hbefore hread (hpermitted statement hread))
    exact ⟨hkeeps.leads, hkeeps.obeys hbefore⟩

namespace Patcher

/-- A statement is that of the first line, or one of the lines behind it if it does not fail. -/
theorem mem_statements_cons {statement : Statement} :
    statement ∈ before.statements (raw :: rest) ↔ before.world.stopping = false ∧
      (isStatement raw = true ∧
          Statement.ofLine before.names (stripComment raw) = .ok statement ∨
        before.lineFault? raw = none ∧ statement ∈ (before.afterLine raw).statements rest) := by
  rw [statements, lineFault?, afterLine]
  cases before.world.stopping with
  | true => simp
  | false =>
    by_cases hstatement : isStatement raw = true
    · rw [run_executeLine]
      simp only [hstatement, if_true, Bool.false_eq_true, if_false, true_and]
      cases Statement.ofLine before.names (stripComment raw) with
      | error fault => simp
      | ok first =>
        rw [List.mem_cons]
        refine or_congr (by simp [eq_comm]) ?_
        cases (first.execute.run before).1 <;> simp
    · simp [hstatement]

theorem permitted_of_permits (hrunning : before.world.stopping = false)
    (hpermits : before.Permits rules (raw :: rest)) (hstatement : isStatement raw = true)
    {statement : Statement}
    (hread : Statement.ofLine before.names (stripComment raw) = .ok statement) :
    statement.node.Permitted rules :=
  hpermits statement (mem_statements_cons.mpr ⟨hrunning, .inl ⟨hstatement, hread⟩⟩)

theorem permits_tail (hrunning : before.world.stopping = false)
    (hpermits : before.Permits rules (raw :: rest)) (hfault : before.lineFault? raw = none) :
    (before.afterLine raw).Permits rules rest :=
  fun statement hmem =>
    hpermits statement (mem_statements_cons.mpr ⟨hrunning, .inr ⟨hfault, hmem⟩⟩)

/-- A line leads along moves that obey the rules, and leaves everything that is defined
obeying them. -/
theorem afterLine_leads (hbefore : before.Obeys rules) (hrunning : before.world.stopping = false)
    (hpermits : before.Permits rules (raw :: rest)) :
    before.LeadsUnder rules (before.afterLine raw) ∧ (before.afterLine raw).Obeys rules := by
  rw [afterLine]
  split
  · rename_i hstatement
    exact executeLine_leads hbefore fun statement hread =>
      permitted_of_permits hrunning hpermits hstatement hread
  · exact ⟨LeadsUnder.refl before, hbefore⟩

end Patcher

end

/-! ### All lines -/

section

variable {before : Patcher}

theorem executeLines_leads (number executed : Nat) (lines : List String)
    (hbefore : before.Obeys rules) (hpermits : before.Permits rules lines) :
    before.LeadsUnder rules (executeLines number executed lines before).2 := by
  induction lines generalizing number executed before with
  | nil => exact Patcher.LeadsUnder.refl before
  | cons raw rest ih =>
    cases hrunning : before.world.stopping with
    | true =>
      rw [executeLines_of_stopping _ _ _ hrunning]
      exact Patcher.LeadsUnder.refl before
    | false =>
      obtain ⟨hleads, hafter⟩ := Patcher.afterLine_leads hbefore hrunning hpermits
      cases hfault : before.lineFault? raw with
      | some fault =>
        rw [executeLines_of_fault _ _ _ hrunning hfault]
        exact hleads
      | none =>
        rw [executeLines_of_no_fault _ _ _ hrunning hfault]
        exact hleads.trans (ih _ _ hafter (Patcher.permits_tail hrunning hpermits hfault))

/-- At each point of a run everything that is defined obeys the rules, and moves that obey
them lead to every later point. -/
theorem executeLines_append_leads (number executed : Nat) (earlier later : List String)
    (hbefore : before.Obeys rules) (hpermits : before.Permits rules (earlier ++ later)) :
    (executeLines number executed earlier before).2.Obeys rules ∧
      Patcher.LeadsUnder rules (executeLines number executed earlier before).2
        (executeLines number executed (earlier ++ later) before).2 := by
  induction earlier generalizing number executed before with
  | nil => exact ⟨hbefore, executeLines_leads number executed later hbefore hpermits⟩
  | cons raw rest ih =>
    cases hrunning : before.world.stopping with
    | true =>
      rw [executeLines_of_stopping _ _ _ hrunning, executeLines_of_stopping _ _ _ hrunning]
      exact ⟨hbefore, Patcher.LeadsUnder.refl before⟩
    | false =>
      have hafter := (Patcher.afterLine_leads hbefore hrunning hpermits).2
      rw [List.cons_append]
      cases hfault : before.lineFault? raw with
      | some fault =>
        rw [executeLines_of_fault _ _ _ hrunning hfault,
          executeLines_of_fault _ _ _ hrunning hfault]
        exact ⟨hafter, Patcher.LeadsUnder.refl _⟩
      | none =>
        rw [executeLines_of_no_fault _ _ _ hrunning hfault,
          executeLines_of_no_fault _ _ _ hrunning hfault]
        exact ih _ _ hafter (Patcher.permits_tail hrunning hpermits hfault)

end

variable {patcher : Patcher}

/-- At the start of a run nothing is defined. -/
theorem Patcher.obeys_start (hfirst : rules.first ≤ patcher.world.pool.records.size) (mod : Mod) :
    (patcher.reset.start mod).Obeys rules :=
  ⟨Environment.All.empty, hfirst⟩

/-- From after some lines of a run moves that obey the rules lead to after further ones. -/
theorem afterLines_leads (hfirst : rules.first ≤ patcher.world.pool.records.size) (mod : Mod)
    (earlier later : List String)
    (hpermits : (patcher.reset.start mod).Permits rules (earlier ++ later)) :
    (patcher.afterLines mod earlier).Obeys rules ∧
      Patcher.LeadsUnder rules (patcher.afterLines mod earlier)
        (patcher.afterLines mod (earlier ++ later)) :=
  executeLines_append_leads 1 0 earlier later (Patcher.obeys_start hfirst mod) hpermits

end Patchwork
