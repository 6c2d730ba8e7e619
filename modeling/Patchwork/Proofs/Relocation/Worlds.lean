import Patchwork.Proofs.Relocation.Merging

/-!
# Worlds after a relocation

Two worlds correspond if their pools, their active mods and their supplies of
marks do and everything else a run can notice is the same.  The notices given so
far are left out: nothing reads them.  The basic steps of an evaluation keep
worlds corresponding and give corresponding results.
-/

namespace Patchwork

open Agree

/-! ## Environments -/

/-- The environment with other places and marks. -/
def Environment.relocate (relocation : Relocation) (environment : Environment) :
    Environment :=
  { definitions := environment.definitions.convert id (Value.relocate relocation)
    tables := environment.tables.convert id
      (Entries.convert id (Node.relocate relocation)) }

/-- Whether nothing in an environment refers to a loaded record. -/
structure Environment.Free (relocation : Relocation) (environment : Environment) : Prop where
  definitions : ∀ entry ∈ environment.definitions, entry.2.Free relocation
  tables : ∀ table ∈ environment.tables, ∀ entry ∈ table.2, entry.2.Free relocation

namespace Relocation

variable (relocation : Relocation)

/-- A free environment and the environment with other places and marks. -/
def Environments (environment environment' : Environment) : Prop :=
  environment' = environment.relocate relocation ∧ environment.Free relocation

/-- Corresponding environments and loaded mods. -/
structure Settings (setting setting' : Setting) : Prop where
  environments : relocation.Environments setting.environment setting'.environment
  repository : setting'.repository = setting.repository.relocate relocation

/-- Corresponding closures. -/
structure Closures (closure closure' : Closure) : Prop where
  identity : closure'.identity = relocation.mark closure.identity
  parameter : closure'.parameter = closure.parameter
  body : relocation.Nodes closure.body closure'.body
  record : relocation.Currents closure.record closure'.record

/-- Corresponding pools and active mods, with supplies of marks that correspond
and with the same draws to come. -/
structure Worlds (left right : World) : Prop where
  pools : relocation.Pools left.pool right.pool
  active : Option.Rel relocation.Mods left.active right.active
  draws : right.draws = left.draws
  stopping : right.stopping = left.stopping
  marks : ∀ offset, relocation.mark (left.marks + 1 + offset) = right.marks + 1 + offset

/-- Arguments that give corresponding values for corresponding records. -/
def Arguments (argument argument' : Argument) : Prop :=
  ∀ current current', relocation.Currents current current' →
    Computations relocation.Worlds relocation.Values (argument current) (argument' current')

end Relocation

variable {relocation : Relocation}

namespace Environment

theorem lookup?_relocate (environment : Environment) (name : String) :
    (environment.relocate relocation).lookup? name =
      (environment.lookup? name).map (Value.relocate relocation) :=
  Entries.get?_convert_id _ environment.definitions name

theorem get?_tables_relocate (environment : Environment) (table : String) :
    (environment.relocate relocation).tables.get? table =
      (environment.tables.get? table).map (Entries.convert id (Node.relocate relocation)) :=
  Entries.get?_convert_id _ environment.tables table

theorem Free.lookup? {environment : Environment} (hfree : environment.Free relocation)
    {name : String} {value : Value} (hvalue : environment.lookup? name = some value) :
    value.Free relocation := by
  obtain ⟨here, hmem⟩ := Entries.mem_of_get? hvalue
  exact hfree.definitions (here, value) hmem

variable {environment environment' : Environment}

theorem tableEntry_relocate (henvironments : relocation.Environments environment environment')
    (table key : String) :
    Outcomes relocation.Nodes (environment.tableEntry table key)
      (environment'.tableEntry table key) := by
  obtain ⟨rfl, hfree⟩ := henvironments
  rw [tableEntry, tableEntry, get?_tables_relocate]
  cases hentries : environment.tables.get? table with
  | none => exact .error _
  | some entries =>
    have hget := Entries.get?_convert_id (Node.relocate relocation) entries key
    simp only [Option.map_some, hget]
    cases hnode : entries.get? key with
    | none => exact .error _
    | some node =>
      obtain ⟨here, hmem⟩ := Entries.mem_of_get? hentries
      obtain ⟨there, hentry⟩ := Entries.mem_of_get? hnode
      exact .ok ⟨rfl, hfree.tables (here, entries) hmem (there, node) hentry⟩

theorem group_relocate (henvironments : relocation.Environments environment environment')
    (name : String) :
    Outcomes relocation.Groups (environment.group name) (environment'.group name) := by
  obtain ⟨rfl, hfree⟩ := henvironments
  rw [group, group, lookup?_relocate]
  cases hvalue : environment.lookup? name with
  | none => exact .error _
  | some value =>
    have hvalues := hfree.lookup? hvalue
    cases value with
    | group members => exact .ok ⟨rfl, hvalues⟩
    | _ => exact .error _

theorem tableOrDefinition_relocate
    (henvironments : relocation.Environments environment environment') (name : String) :
    relocation.Values (environment.tableOrDefinition name)
      (environment'.tableOrDefinition name) := by
  obtain ⟨rfl, hfree⟩ := henvironments
  rw [tableOrDefinition, tableOrDefinition, get?_tables_relocate, lookup?_relocate]
  cases environment.tables.get? name with
  | some entries => exact Relocation.values_table name
  | none =>
    cases hvalue : environment.lookup? name with
    | none => exact Relocation.values_table name
    | some value => exact ⟨rfl, hfree.lookup? hvalue⟩

theorem define_relocate (henvironments : relocation.Environments environment environment')
    (name : String) {value value' : Value} (hvalues : relocation.Values value value') :
    relocation.Environments (environment.define name value)
      (environment'.define name value') := by
  obtain ⟨rfl, hfree⟩ := henvironments
  obtain ⟨rfl, hvalue⟩ := hvalues
  refine ⟨?_, ⟨fun entry hentry => ?_, hfree.tables⟩⟩
  · have hput := Entries.put_convert_id (Value.relocate relocation) environment.definitions name
      value
    simp only [define, relocate, hput]
  · obtain hold | hnew := Entries.mem_put hentry
    · exact hfree.definitions entry hold
    · rw [hnew]
      exact hvalue

theorem setTableEntry_relocate
    (henvironments : relocation.Environments environment environment') (table key : String)
    {node node' : Node} (hnodes : relocation.Nodes node node') :
    relocation.Environments (environment.setTableEntry table key node)
      (environment'.setTableEntry table key node') := by
  obtain ⟨rfl, hfree⟩ := henvironments
  obtain ⟨rfl, hnode⟩ := hnodes
  refine ⟨?_, ⟨hfree.definitions, fun entry hentry => ?_⟩⟩
  · have hentries : ((environment.tables.get? table).map
          (Entries.convert id (Node.relocate relocation))).getD [] =
        ((environment.tables.get? table).getD []).convert id (Node.relocate relocation) := by
      cases environment.tables.get? table <;> rfl
    have hinner := Entries.put_convert_id (Node.relocate relocation)
      ((environment.tables.get? table).getD []) key node
    have houter := Entries.put_convert_id (Entries.convert id (Node.relocate relocation))
      environment.tables table (((environment.tables.get? table).getD []).put key node)
    simp only [setTableEntry, get?_tables_relocate, hentries, hinner]
    simp only [relocate, houter]
  · obtain hold | hnew := Entries.mem_put hentry
    · exact hfree.tables entry hold
    · rw [hnew]
      intro inner hinner
      obtain hin | hlast := Entries.mem_put hinner
      · cases hentries : environment.tables.get? table with
        | none =>
          rw [hentries] at hin
          cases hin
        | some entries =>
          rw [hentries] at hin
          obtain ⟨here, hmem⟩ := Entries.mem_of_get? hentries
          exact hfree.tables (here, entries) hmem inner hin
      · rw [hlast]
        exact hnode

end Environment

/-! ## Steps of an evaluation -/

namespace Eval

variable {Result Result' : Type} {related : Result → Result' → Prop}

theorem agree_settle {states : World → World → Prop} {outcome : Except Fault Result}
    {outcome' : Except Fault Result'} (houtcomes : Outcomes related outcome outcome') :
    Computations states related (settle outcome) (settle outcome') := by
  cases houtcomes with
  | error fault => exact Computations.of_throw fault
  | ok hrelated => exact Computations.of_pure hrelated

theorem labels_relocate :
    Computations relocation.Worlds
      (fun labels labels' : Labels => ∀ ref, labels' (relocation.ref ref) = labels ref)
      labels labels :=
  Computations.of_get.of_bind fun _ _ hworlds =>
    Computations.of_pure hworlds.pools.label_ref

theorem labelled_relocate {compute : Labels → Except Fault Result}
    {compute' : Labels → Except Fault Result'}
    (hcompute : ∀ labels labels' : Labels, (∀ ref, labels' (relocation.ref ref) = labels ref) →
      Outcomes related (compute labels) (compute' labels')) :
    Computations relocation.Worlds related (labelled compute) (labelled compute') :=
  labels_relocate.of_bind fun labels labels' hlabels =>
    agree_settle (hcompute labels labels' hlabels)

theorem record_relocate {ref ref' : RecordRef} (hrefs : relocation.Refs ref ref') :
    Computations relocation.Worlds
      (fun record record' => record' = record.remark relocation.mark) (record ref)
      (record ref') := by
  refine Computations.of_get.of_bind fun world world' hworlds => Computations.of_pure ?_
  rw [hrefs.1, hworlds.pools.get]

theorem note_relocate (level : Level) (source : Source) (text text' : String) :
    Computations relocation.Worlds Eq (note level source text) (note level source text') :=
  Computations.of_modify fun _ _ hworlds =>
    ⟨hworlds.pools, hworlds.active, hworlds.draws, hworlds.stopping, hworlds.marks⟩

theorem nextMark_relocate :
    Computations relocation.Worlds (fun mark mark' => mark' = relocation.mark mark)
      nextMark nextMark := by
  refine Computations.of_get.of_bind fun world world' hworlds => ?_
  refine (Computations.of_set ⟨hworlds.pools, hworlds.active, hworlds.draws,
    hworlds.stopping, fun offset => ?_⟩).of_bind fun _ _ _ => Computations.of_pure ?_
  · exact (hworlds.marks 0).symm
  · have hnext := hworlds.marks (1 + offset)
    rw [← Nat.add_assoc, ← Nat.add_assoc] at hnext
    exact hnext

theorem mark_of_ne {value : Value} (hvalue : value ≠ .float (.nan 0)) :
    mark value = return value := by
  unfold mark
  split
  · exact absurd rfl hvalue
  · rfl

theorem relocate_eq_unmarked_iff {value : Value} :
    value.relocate relocation = .float (.nan 0) ↔ value = .float (.nan 0) := by
  cases value with
  | float number =>
    cases number <;>
      simp [Value.relocate, Binary64.remark, Relocation.mark_eq_zero_iff]
  | _ => simp [Value.relocate]

theorem mark_relocate {value value' : Value} (hvalues : relocation.Values value value') :
    Computations relocation.Worlds relocation.Values (mark value) (mark value') := by
  obtain ⟨rfl, hfree⟩ := hvalues
  by_cases hvalue : value = .float (.nan 0)
  · rw [relocate_eq_unmarked_iff.mpr hvalue, hvalue]
    refine nextMark_relocate.of_bind fun mark mark' hmark => Computations.of_pure ?_
    subst hmark
    exact Relocation.values_float (.nan mark)
  · rw [mark_of_ne hvalue, mark_of_ne (relocate_eq_unmarked_iff.not.mpr hvalue)]
    exact Computations.of_pure ⟨rfl, hfree⟩

theorem requireActive_relocate :
    Computations relocation.Worlds relocation.Mods requireActive requireActive := by
  refine Computations.of_get.of_bind fun world world' hworlds => ?_
  obtain ⟨pool, active, draws, stopping, journal, marks⟩ := world
  obtain ⟨pool', active', draws', stopping', journal', marks'⟩ := world'
  cases hworlds.active with
  | none => exact Computations.of_throw _
  | some hmods => exact Computations.of_pure hmods

theorem onActive_relocate {work : Work Result} {work' : Work Result'}
    (hwork : Computations relocation.Benches related work work') :
    Computations relocation.Worlds related (onActive work) (onActive work') := by
  refine requireActive_relocate.of_bind fun mod mod' hmods => ?_
  refine Computations.of_get.of_bind fun world world' hworlds => ?_
  obtain ⟨houtcomes, hbenches⟩ := hwork.run ⟨world.pool, mod, world.journal, world.marks⟩
    ⟨world'.pool, mod', world'.journal, world'.marks⟩ ⟨hworlds.pools, hmods, hworlds.marks⟩
  generalize work.run ⟨world.pool, mod, world.journal, world.marks⟩ = ran,
    work'.run ⟨world'.pool, mod', world'.journal, world'.marks⟩ = ran' at houtcomes hbenches ⊢
  obtain ⟨outcome, bench⟩ := ran
  obtain ⟨outcome', bench'⟩ := ran'
  cases houtcomes with
  | error fault => exact Computations.of_throw fault
  | ok hresults =>
    exact (Computations.of_set ⟨hbenches.pools, Option.Rel.some hbenches.mods,
      hworlds.draws, hworlds.stopping, hbenches.marks⟩).of_bind fun _ _ _ =>
        Computations.of_pure hresults

theorem argument_relocate (name : String) {arguments arguments' : List Argument}
    (harguments : List.Forall₂ relocation.Arguments arguments arguments') (position : Nat)
    {current current' : Option RecordRef} (hcurrents : relocation.Currents current current') :
    Computations relocation.Worlds relocation.Values (argument name arguments position current)
      (argument name arguments' position current') := by
  unfold argument
  induction harguments generalizing position with
  | nil => exact Computations.of_throw _
  | cons hfirst _ ih =>
    cases position with
    | zero => exact hfirst current current' hcurrents
    | succ position =>
      rw [List.getElem?_cons_succ, List.getElem?_cons_succ]
      exact ih position

theorem place_relocate {outcome : Merge.Outcome} :
    Computations relocation.Worlds relocation.Groups (place outcome)
      (place (outcome.remark relocation.mark)) := by
  refine Computations.of_get.of_bind fun world world' hworlds => ?_
  obtain ⟨hpools, hgroups⟩ := Merge.place_relocate hworlds.pools outcome
  exact (Computations.of_set ⟨hpools, hworlds.active, hworlds.draws, hworlds.stopping,
    hworlds.marks⟩).of_bind fun _ _ _ => Computations.of_pure hgroups

end Eval

theorem Value.expectClosure_relocate {labels labels' : Labels}
    (hlabels : ∀ ref, labels' (relocation.ref ref) = labels ref) (purpose : String)
    {value value' : Value} (hvalues : relocation.Values value value') :
    Outcomes relocation.Closures (value.expectClosure labels purpose)
      (value'.expectClosure labels' purpose) := by
  obtain ⟨rfl, hfree⟩ := hvalues
  have hunexpected := unexpected_relocate hlabels .lambda purpose value
  cases value with
  | closure identity parameter body record =>
    exact .ok ⟨rfl, rfl, ⟨rfl, hfree.1⟩, ⟨rfl, hfree.2⟩⟩
  | _ =>
    simp only [relocate] at hunexpected
    simp only [relocate, expectClosure, hunexpected]
    exact .error _

end Patchwork
