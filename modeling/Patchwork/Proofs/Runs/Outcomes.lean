import Patchwork.Patcher

/-!
# How a run ends

A run carries out its lines up to the first one that fails or asks it to stop.  The
first main statement says how a run ends in each of the three cases: at a line that
fails, at a line that asks to stop, and after all lines.  Only in the last case is the
mod saved, once, as the last line has left it.

Comments, blanks and everything behind the line where a run ends do not matter.  The
second main statement says so of two scripts with the same statements up to that line.
-/

namespace Patchwork

/-! ## Single lines -/

/-- Whether a raw line states something besides comments and blanks. -/
def isStatement (raw : String) : Bool :=
  !(stripComment raw == "")

@[simp]
theorem isStatement_iff {raw : String} : isStatement raw = true ↔ stripComment raw ≠ "" := by
  simp [isStatement]

/-- How many raw lines state something. -/
def statementCount (lines : List String) : Nat :=
  lines.countP isStatement

namespace Patcher

/-- The patcher after a raw line has been carried out or has failed. -/
def afterLine (patcher : Patcher) (raw : String) : Patcher :=
  if isStatement raw then ((executeLine (stripComment raw)).run patcher).2 else patcher

/-- The fault a raw line fails with. -/
def lineFault? (patcher : Patcher) (raw : String) : Option Fault :=
  if isStatement raw then
    match ((executeLine (stripComment raw)).run patcher).1 with
    | .ok () => none
    | .error fault => some fault
  else none

/-- The patcher as raw lines leave it, each carried out in the state that the lines
before it have left. -/
def leftBy (patcher : Patcher) (lines : List String) : Patcher :=
  lines.foldl afterLine patcher

/-- No line fails, and none asks to stop. -/
def Passes (patcher : Patcher) : List String → Prop
  | [] => True
  | raw :: rest =>
    patcher.lineFault? raw = none ∧ (patcher.afterLine raw).world.stopping = false ∧
      (patcher.afterLine raw).Passes rest

variable {patcher : Patcher} {raw : String}

theorem leftBy_cons (patcher : Patcher) (raw : String) (rest : List String) :
    patcher.leftBy (raw :: rest) = (patcher.afterLine raw).leftBy rest := by
  rw [leftBy, leftBy, List.foldl_cons]

theorem stopping_leftBy {lines : List String} (hrunning : patcher.world.stopping = false)
    (hpasses : patcher.Passes lines) : (patcher.leftBy lines).world.stopping = false := by
  induction lines generalizing patcher with
  | nil => exact hrunning
  | cons raw rest ih =>
    rw [leftBy_cons]
    exact ih hpasses.2.1 hpasses.2.2

theorem isStatement_of_lineFault? {fault : Fault} (hfault : patcher.lineFault? raw = some fault) :
    isStatement raw = true := by
  cases hblank : isStatement raw with
  | true => rfl
  | false => simp [lineFault?, hblank] at hfault

end Patcher

/-! ## All lines of a script -/

section

variable {patcher : Patcher} {raw : String}

theorem executeLines_of_stopping (number executed : Nat) (lines : List String)
    (hstops : patcher.world.stopping = true) :
    executeLines number executed lines patcher = ((executed, none), patcher) := by
  cases lines with
  | nil => rfl
  | cons raw rest => rw [executeLines, if_pos hstops]

theorem executeLines_of_blank (number executed : Nat) (later : List String)
    (hrunning : patcher.world.stopping = false) (hblank : stripComment raw = "") :
    executeLines number executed (raw :: later) patcher =
      executeLines (number + 1) executed later patcher := by
  rw [executeLines, hrunning, if_neg Bool.false_ne_true]
  simp only [hblank, beq_self_eq_true, if_true]

theorem executeLines_of_statement (number executed : Nat) (later : List String)
    (hrunning : patcher.world.stopping = false) (hstatement : stripComment raw ≠ "") :
    executeLines number executed (raw :: later) patcher =
      match (executeLine (stripComment raw)).run patcher with
      | (.error fault, after) => ((executed, some ⟨number, stripComment raw, fault⟩), after)
      | (.ok (), after) => executeLines (number + 1) (executed + 1) later after := by
  rw [executeLines, hrunning, if_neg Bool.false_ne_true]
  rcases hrun : (executeLine (stripComment raw)).run patcher with ⟨fault | result, after⟩ <;>
    simp only [beq_iff_eq, hstatement, if_false, hrun]

theorem executeLines_of_fault {fault : Fault} (number executed : Nat) (later : List String)
    (hrunning : patcher.world.stopping = false) (hfault : patcher.lineFault? raw = some fault) :
    executeLines number executed (raw :: later) patcher =
      ((executed, some ⟨number, stripComment raw, fault⟩), patcher.afterLine raw) := by
  have hstatement := Patcher.isStatement_of_lineFault? hfault
  rw [Patcher.lineFault?, if_pos hstatement] at hfault
  rw [executeLines_of_statement _ _ _ hrunning (isStatement_iff.mp hstatement),
    Patcher.afterLine, if_pos hstatement]
  rcases hrun : (executeLine (stripComment raw)).run patcher with ⟨outcome, after⟩
  rw [hrun] at hfault
  cases outcome with
  | ok _ => cases hfault
  | error cause =>
    cases hfault
    rfl

theorem executeLines_of_no_fault (number executed : Nat) (later : List String)
    (hrunning : patcher.world.stopping = false) (hfault : patcher.lineFault? raw = none) :
    executeLines number executed (raw :: later) patcher =
      executeLines (number + 1) (executed + statementCount [raw]) later
        (patcher.afterLine raw) := by
  by_cases hstatement : isStatement raw = true
  · have hcount : statementCount [raw] = 1 := List.countP_eq_length.mpr (by simpa using hstatement)
    rw [Patcher.lineFault?, if_pos hstatement] at hfault
    rw [executeLines_of_statement _ _ _ hrunning (isStatement_iff.mp hstatement),
      Patcher.afterLine, if_pos hstatement, hcount]
    rcases hrun : (executeLine (stripComment raw)).run patcher with ⟨outcome, after⟩
    rw [hrun] at hfault
    cases outcome with
    | ok _ => rfl
    | error cause => cases hfault
  · have hblank : stripComment raw = "" := Decidable.not_not.mp (mt isStatement_iff.mpr hstatement)
    have hcount : statementCount [raw] = 0 := List.countP_eq_zero.mpr (by simpa using hblank)
    rw [executeLines_of_blank _ _ _ hrunning hblank, Patcher.afterLine, if_neg hstatement, hcount,
      Nat.add_zero executed]

/-- Lines that pass are carried out one after the other. -/
theorem executeLines_append_of_passes (number executed : Nat) {earlier : List String}
    (later : List String) (hrunning : patcher.world.stopping = false)
    (hpasses : patcher.Passes earlier) :
    executeLines number executed (earlier ++ later) patcher =
      executeLines (number + earlier.length) (executed + statementCount earlier) later
        (patcher.leftBy earlier) := by
  induction earlier generalizing number executed patcher with
  | nil => rfl
  | cons raw rest ih =>
    obtain ⟨hfault, hstill, hrest⟩ := hpasses
    have hcount : statementCount (raw :: rest) = statementCount [raw] + statementCount rest := by
      simp only [statementCount, List.countP_cons, List.countP_nil]
      omega
    rw [List.cons_append, executeLines_of_no_fault number executed _ hrunning hfault,
      ih _ _ hstill hrest, hcount, List.length_cons, Patcher.leftBy_cons, Nat.add_assoc,
      Nat.add_assoc, Nat.add_comm 1]

end

/-! ## The outcome -/

namespace Patcher

/-- Every line before `raw` passes, and `raw` fails. -/
def FailsAt (patcher : Patcher) (lines earlier : List String) (raw : String) (fault : Fault) :
    Prop :=
  ∃ later, lines = earlier ++ raw :: later ∧ patcher.Passes earlier ∧
    (patcher.leftBy earlier).lineFault? raw = some fault

/-- Every line before `raw` passes, and `raw` asks to stop. -/
def StopsAt (patcher : Patcher) (lines earlier : List String) (raw : String) : Prop :=
  ∃ later, lines = earlier ++ raw :: later ∧ patcher.Passes earlier ∧
    (patcher.leftBy earlier).lineFault? raw = none ∧
    (patcher.leftBy (earlier ++ [raw])).world.stopping = true

theorem leftBy_append_singleton (patcher : Patcher) (earlier : List String) (raw : String) :
    patcher.leftBy (earlier ++ [raw]) = (patcher.leftBy earlier).afterLine raw := by
  simp [leftBy]

theorem FailsAt.head {patcher : Patcher} {raw : String} {fault : Fault} (rest : List String)
    (hfault : patcher.lineFault? raw = some fault) :
    patcher.FailsAt (raw :: rest) [] raw fault := by
  refine ⟨rest, List.nil_append _, trivial, ?_⟩
  rw [leftBy, List.foldl_nil, hfault]

theorem StopsAt.head {patcher : Patcher} {raw : String} (rest : List String)
    (hfault : patcher.lineFault? raw = none)
    (hstops : (patcher.afterLine raw).world.stopping = true) :
    patcher.StopsAt (raw :: rest) [] raw := by
  refine ⟨rest, List.nil_append _, trivial, ?_, ?_⟩
  · rw [leftBy, List.foldl_nil, hfault]
  · rw [leftBy_append_singleton, leftBy, List.foldl_nil, hstops]

theorem FailsAt.cons {patcher : Patcher} {lines earlier : List String} {raw other : String}
    {fault : Fault} (hfails : (patcher.afterLine raw).FailsAt lines earlier other fault)
    (hfault : patcher.lineFault? raw = none)
    (hstill : (patcher.afterLine raw).world.stopping = false) :
    patcher.FailsAt (raw :: lines) (raw :: earlier) other fault := by
  obtain ⟨later, hlines, hearlier, hother⟩ := hfails
  refine ⟨later, congrArg _ hlines, ⟨hfault, hstill, hearlier⟩, ?_⟩
  rw [leftBy_cons, hother]

theorem StopsAt.cons {patcher : Patcher} {lines earlier : List String} {raw other : String}
    (hstops : (patcher.afterLine raw).StopsAt lines earlier other)
    (hfault : patcher.lineFault? raw = none)
    (hstill : (patcher.afterLine raw).world.stopping = false) :
    patcher.StopsAt (raw :: lines) (raw :: earlier) other := by
  obtain ⟨later, hlines, hearlier, hother, hlast⟩ := hstops
  refine ⟨later, congrArg _ hlines, ⟨hfault, hstill, hearlier⟩, ?_, ?_⟩
  · rw [leftBy_cons, hother]
  · rw [List.cons_append, leftBy_cons, hlast]

theorem fails_or_stops_or_passes (patcher : Patcher) (lines : List String) :
    (∃ earlier raw fault, patcher.FailsAt lines earlier raw fault) ∨
      (∃ earlier raw, patcher.StopsAt lines earlier raw) ∨ patcher.Passes lines := by
  induction lines generalizing patcher with
  | nil => exact Or.inr (Or.inr trivial)
  | cons raw rest ih =>
    cases hfault : patcher.lineFault? raw with
    | some fault => exact Or.inl ⟨[], raw, fault, FailsAt.head rest hfault⟩
    | none =>
      cases hstops : (patcher.afterLine raw).world.stopping with
      | true => exact Or.inr (Or.inl ⟨[], raw, StopsAt.head rest hfault hstops⟩)
      | false =>
        rcases ih (patcher.afterLine raw) with
          ⟨earlier, other, fault, hfails⟩ | ⟨earlier, other, hlast⟩ | hrest
        · exact Or.inl ⟨raw :: earlier, other, fault, hfails.cons hfault hstops⟩
        · exact Or.inr (Or.inl ⟨raw :: earlier, other, hlast.cons hfault hstops⟩)
        · exact Or.inr (Or.inr ⟨hfault, hstops, hrest⟩)

variable {patcher : Patcher} {lines earlier : List String} {raw : String}

theorem FailsAt.executeLines {fault : Fault} (hfails : patcher.FailsAt lines earlier raw fault)
    (hrunning : patcher.world.stopping = false) :
    executeLines 1 0 lines patcher =
      ((statementCount earlier, some ⟨earlier.length + 1, stripComment raw, fault⟩),
        patcher.leftBy (earlier ++ [raw])) := by
  obtain ⟨later, rfl, hpasses, hfault⟩ := hfails
  rw [executeLines_append_of_passes 1 0 _ hrunning hpasses,
    executeLines_of_fault _ _ later (stopping_leftBy hrunning hpasses) hfault,
    leftBy_append_singleton, Nat.zero_add, Nat.add_comm 1]

theorem StopsAt.executeLines (hstops : patcher.StopsAt lines earlier raw)
    (hrunning : patcher.world.stopping = false) :
    executeLines 1 0 lines patcher =
      ((statementCount (earlier ++ [raw]), none), patcher.leftBy (earlier ++ [raw])) := by
  obtain ⟨later, rfl, hpasses, hfault, hlast⟩ := hstops
  rw [leftBy_append_singleton] at hlast ⊢
  rw [executeLines_append_of_passes 1 0 _ hrunning hpasses,
    executeLines_of_no_fault _ _ later (stopping_leftBy hrunning hpasses) hfault,
    executeLines_of_stopping _ _ later hlast, Nat.zero_add, statementCount, statementCount,
    statementCount, List.countP_append]

theorem Passes.executeLines (hpasses : patcher.Passes lines)
    (hrunning : patcher.world.stopping = false) :
    executeLines 1 0 lines patcher = ((statementCount lines, none), patcher.leftBy lines) := by
  have hall := executeLines_append_of_passes 1 0 [] hrunning hpasses
  rw [List.append_nil, Nat.zero_add] at hall
  rw [hall, Patchwork.executeLines]

/-- A line that fails does so whatever comes after it. -/
theorem FailsAt.cut {fault : Fault} (hfails : patcher.FailsAt lines earlier raw fault) :
    patcher.FailsAt (earlier ++ [raw]) earlier raw fault := by
  obtain ⟨later, -, hfails⟩ := hfails
  exact ⟨[], rfl, hfails⟩

/-- A line that asks to stop does so whatever comes after it. -/
theorem StopsAt.cut (hstops : patcher.StopsAt lines earlier raw) :
    patcher.StopsAt (earlier ++ [raw]) earlier raw := by
  obtain ⟨later, -, hstops⟩ := hstops
  exact ⟨[], rfl, hstops⟩

end Patcher

/-- Saving that lists the mods it has been called on, each with its pool. -/
def Save.recorded {Place : Type} (save : Save Place) : Save (Place × List (Pool × Mod)) :=
  fun pool mod place =>
    ((save pool mod place.1).1, (save pool mod place.1).2, place.2 ++ [(pool, mod)])

section

variable {Place : Type} (save : Save Place) (place : Place) (patcher : Patcher)
  {lines earlier : List String} {raw : String} (mod : Mod)

theorem runLines_of_fails {fault : Fault}
    (hfails : (patcher.reset.start mod).FailsAt lines earlier raw fault) :
    let ran := patcher.runLines save place lines mod
    ran.1.phase = .failed ∧ ran.2.1.phase = .failed ∧
      ran.1.failedLine = some (earlier.length + 1) ∧
      ran.1.linesExecuted = statementCount earlier ∧ ran.2.2 = place := by
  rw [Patcher.runLines, Patcher.runPrepared, hfails.executeLines rfl]
  simp only [Patcher.failRun, Patcher.finish, and_self]

theorem runLines_of_stops (hstops : (patcher.reset.start mod).StopsAt lines earlier raw) :
    let ran := patcher.runLines save place lines mod
    ran.1.phase = .stopped ∧ ran.2.1.phase = .stopped ∧ ran.1.failedLine = none ∧
      ran.1.linesExecuted = statementCount (earlier ++ [raw]) ∧ ran.2.2 = place ∧
      ran = patcher.runLines save place (earlier ++ [raw]) mod := by
  have hcut := hstops.cut.executeLines rfl
  have hlines := hstops.executeLines rfl
  obtain ⟨-, -, -, -, hlast⟩ := hstops
  rw [Patcher.runLines, Patcher.runLines, Patcher.runPrepared, Patcher.runPrepared, hlines, hcut]
  simp only [hlast, if_true, Patcher.finish, and_self]

theorem saveRun_phase (result : RunResult) :
    let ran := patcher.saveRun save place mod result
    let saved := save patcher.world.pool mod place
    ran.1.phase = (if saved.1.isOk then .saved else .failed) ∧
      ran.2.1.phase = ran.1.phase ∧ ran.1.failedLine = result.failedLine ∧
      ran.1.linesExecuted = result.linesExecuted ∧ ran.2.2 = saved.2 := by
  rw [Patcher.saveRun]
  rcases save patcher.world.pool mod place with ⟨outcome, after⟩
  cases outcome <;> simp [Patcher.failRun, Patcher.finish, Except.isOk, Except.toBool]

theorem runLines_of_passes (hpasses : (patcher.reset.start mod).Passes lines) :
    let ran := patcher.runLines save place lines mod
    let complete := (patcher.reset.start mod).leftBy lines
    let saved := save complete.world.pool (complete.world.active.getD mod) place
    ran.1.phase = (if saved.1.isOk then .saved else .failed) ∧
      ran.2.1.phase = ran.1.phase ∧ ran.1.failedLine = none ∧
      ran.1.linesExecuted = statementCount lines ∧ ran.2.2 = saved.2 := by
  have hrunning : ((patcher.reset.start mod).leftBy lines).world.stopping = false :=
    Patcher.stopping_leftBy rfl hpasses
  rw [Patcher.runLines, Patcher.runPrepared, hpasses.executeLines rfl]
  dsimp only
  rw [if_neg (hrunning ▸ Bool.false_ne_true)]
  exact saveRun_phase save place _ _ _

end

/-- A run ends at the first line that fails, at the first line that asks to stop, or
after all lines.  The mod is saved in the last case only, once, as the last line has
left it. -/
theorem Patcher.runLines_outcome {Place : Type} (patcher : Patcher) (save : Save Place)
    (place : Place) (lines : List String) (mod : Mod) :
    let start := patcher.reset.start mod
    let ran := patcher.runLines save.recorded (place, []) lines mod
    ran.2.1.phase = ran.1.phase ∧ ran.1.phase ∈ [Phase.saved, .stopped, .failed] ∧
      ((∃ earlier raw fault, start.FailsAt lines earlier raw fault) ∨
        (∃ earlier raw, start.StopsAt lines earlier raw) ∨ start.Passes lines) ∧
      (∀ earlier raw fault, start.FailsAt lines earlier raw fault →
        ran.1.phase = .failed ∧ ran.1.failedLine = some (earlier.length + 1) ∧
          ran.1.linesExecuted = statementCount earlier ∧ ran.2.2 = (place, [])) ∧
      (∀ earlier raw, start.StopsAt lines earlier raw →
        ran.1.phase = .stopped ∧ ran.1.failedLine = none ∧
          ran.1.linesExecuted = statementCount (earlier ++ [raw]) ∧ ran.2.2 = (place, []) ∧
          ran = patcher.runLines save.recorded (place, []) (earlier ++ [raw]) mod) ∧
      (start.Passes lines →
        let complete := start.leftBy lines
        let patched := complete.world.active.getD mod
        let saved := save complete.world.pool patched place
        ran.1.phase = (if saved.1.isOk then .saved else .failed) ∧ ran.1.failedLine = none ∧
          ran.1.linesExecuted = statementCount lines ∧
          ran.2.2 = (saved.2, [(complete.world.pool, patched)])) := by
  intro start ran
  have hfailed : ∀ earlier raw fault, start.FailsAt lines earlier raw fault → _ :=
    fun _ _ _ hfails => runLines_of_fails save.recorded (place, []) patcher mod hfails
  have hstopped : ∀ earlier raw, start.StopsAt lines earlier raw → _ :=
    fun _ _ hstops => runLines_of_stops save.recorded (place, []) patcher mod hstops
  have hpassed : start.Passes lines → _ :=
    fun hpasses => runLines_of_passes save.recorded (place, []) patcher mod hpasses
  have hcases := start.fails_or_stops_or_passes lines
  have hphases : ran.2.1.phase = ran.1.phase ∧ ran.1.phase ∈ [Phase.saved, .stopped, .failed] := by
    rcases hcases with ⟨earlier, raw, fault, hfails⟩ | ⟨earlier, raw, hstops⟩ | hpasses
    · obtain ⟨hresult, hafter, -⟩ := hfailed earlier raw fault hfails
      exact ⟨hafter.trans hresult.symm, by simp [ran, hresult]⟩
    · obtain ⟨hresult, hafter, -⟩ := hstopped earlier raw hstops
      exact ⟨hafter.trans hresult.symm, by simp [ran, hresult]⟩
    · obtain ⟨hresult, hafter, -⟩ := hpassed hpasses
      refine ⟨hafter, ?_⟩
      rw [hresult]
      split <;> simp
  refine ⟨hphases.1, hphases.2, hcases, ?_, ?_, ?_⟩
  · intro earlier raw fault hfails
    obtain ⟨hresult, -, hnumber, hexecuted, hkept⟩ := hfailed earlier raw fault hfails
    exact ⟨hresult, hnumber, hexecuted, hkept⟩
  · intro earlier raw hstops
    obtain ⟨hresult, -, hnumber, hexecuted, hkept, hsame⟩ := hstopped earlier raw hstops
    exact ⟨hresult, hnumber, hexecuted, hkept, hsame⟩
  · intro hpasses
    obtain ⟨hresult, -, hnumber, hexecuted, hkept⟩ := hpassed hpasses
    exact ⟨hresult, hnumber, hexecuted, hkept⟩

/-- A script that asks to stop before a line that cannot be read. -/
def halting : List String :=
  ["; nothing to do", "@Stop()", "nonsense"]

/-- Saving that always succeeds. -/
def savedAnywhere : Save Unit :=
  fun _ _ place => (.ok [], place)

theorem halting_outcome :
    let ran := Patcher.runLines {} savedAnywhere.recorded ((), []) halting { name := "sharper" }
    ran.1.phase = .stopped ∧ ran.1.linesExecuted = 1 ∧ ran.2.2 = ((), []) := by
  have hstops : (Patcher.start (Patcher.reset {}) { name := "sharper" }).StopsAt halting
      ["; nothing to do"] "@Stop()" := by
    refine ⟨["nonsense"], rfl, ⟨rfl, rfl, trivial⟩, ?_, ?_⟩
    · rw [← Option.isNone_iff_eq_none]
      decide +kernel
    · decide +kernel
  obtain ⟨-, -, -, -, hstopped, -⟩ :=
    Patcher.runLines_outcome {} savedAnywhere () halting { name := "sharper" }
  obtain ⟨hphase, -, hexecuted, hkept, -⟩ := hstopped _ _ hstops
  exact ⟨hphase, hexecuted, hkept⟩

/-! ## Statements alone -/

/-- The texts of the statements in raw lines, without comments and blanks. -/
def statementTexts (lines : List String) : List String :=
  (lines.map stripComment).filter fun text => !(text == "")

/-- What failed and why, wherever it stands. -/
def LineFault.unnumbered (failure : LineFault) : String × Fault :=
  (failure.line, failure.fault)

/-- Carries out the texts of statements until one fails or asks to stop.  Gives how many
have been carried out, and what failed. -/
def executeTexts : (executed : Nat) → List String → Patcher →
    (Nat × Option (String × Fault)) × Patcher
  | executed, [], patcher => ((executed, none), patcher)
  | executed, text :: rest, patcher =>
    if patcher.world.stopping then ((executed, none), patcher)
    else
      match (executeLine text).run patcher with
      | (.error fault, after) => ((executed, some (text, fault)), after)
      | (.ok (), after) => executeTexts (executed + 1) rest after

theorem statementTexts_cons_of_blank {raw : String} (rest : List String)
    (hblank : stripComment raw = "") : statementTexts (raw :: rest) = statementTexts rest := by
  simp [statementTexts, hblank]

theorem statementTexts_cons_of_statement {raw : String} (rest : List String)
    (hstatement : stripComment raw ≠ "") :
    statementTexts (raw :: rest) = stripComment raw :: statementTexts rest := by
  simp [statementTexts, hstatement]

theorem executeTexts_of_stopping {patcher : Patcher} (executed : Nat) (texts : List String)
    (hstops : patcher.world.stopping = true) :
    executeTexts executed texts patcher = ((executed, none), patcher) := by
  cases texts with
  | nil => rfl
  | cons text rest => rw [executeTexts, if_pos hstops]

/-- But for the number of a line that fails, a script does what its statements do. -/
theorem executeLines_unnumbered (number executed : Nat) (lines : List String)
    (patcher : Patcher) :
    let ended := executeLines number executed lines patcher
    ((ended.1.1, ended.1.2.map LineFault.unnumbered), ended.2) =
      executeTexts executed (statementTexts lines) patcher := by
  induction lines generalizing number executed patcher with
  | nil => rfl
  | cons raw rest ih =>
    cases hstops : patcher.world.stopping with
    | true =>
      simp only [executeLines_of_stopping _ _ _ hstops, executeTexts_of_stopping _ _ hstops,
        Option.map_none]
    | false =>
      by_cases hblank : stripComment raw = ""
      · rw [executeLines_of_blank _ _ _ hstops hblank, statementTexts_cons_of_blank _ hblank]
        exact ih (number + 1) executed patcher
      · rw [executeLines_of_statement _ _ _ hstops hblank,
          statementTexts_cons_of_statement _ hblank, executeTexts, hstops,
          if_neg Bool.false_ne_true]
        rcases (executeLine (stripComment raw)).run patcher with ⟨fault | _, after⟩
        · rfl
        · exact ih (number + 1) (executed + 1) after

/-- Nothing after a statement that fails or asks to stop is carried out. -/
theorem executeTexts_append {executed : Nat} {texts : List String} {patcher : Patcher}
    (later : List String)
    (hended : (executeTexts executed texts patcher).1.2.isSome = true ∨
      (executeTexts executed texts patcher).2.world.stopping = true) :
    executeTexts executed (texts ++ later) patcher = executeTexts executed texts patcher := by
  induction texts generalizing executed patcher with
  | nil =>
    rcases hended with hfailed | hstops
    · cases hfailed
    · exact executeTexts_of_stopping executed later hstops
  | cons text rest ih =>
    rw [executeTexts] at hended
    rw [List.cons_append, executeTexts, executeTexts]
    cases hstops : patcher.world.stopping with
    | true => rfl
    | false =>
      rw [hstops, if_neg Bool.false_ne_true] at hended
      rw [if_neg Bool.false_ne_true, if_neg Bool.false_ne_true]
      rcases hrun : (executeLine text).run patcher with ⟨fault | _, after⟩
      · rfl
      · rw [hrun] at hended
        exact ih hended

namespace Patcher

/-- The lines of two scripts state the same, up to and including the first one that fails
or asks to stop, or all of them. -/
def StatesAlike (patcher : Patcher) (lines lines' : List String) : Prop :=
  statementTexts lines = statementTexts lines' ∨
    ∃ earlier raw,
      ((∃ fault, patcher.FailsAt lines earlier raw fault) ∨ patcher.StopsAt lines earlier raw) ∧
        statementTexts (earlier ++ [raw]) <+: statementTexts lines'

theorem StatesAlike.executeTexts {patcher : Patcher} {lines lines' : List String}
    (halike : patcher.StatesAlike lines lines') (hrunning : patcher.world.stopping = false) :
    executeTexts 0 (statementTexts lines') patcher =
      executeTexts 0 (statementTexts lines) patcher := by
  rcases halike with hsame | ⟨earlier, raw, hends, later, hlater⟩
  · rw [hsame]
  · -- The lines and the part of them that the other script shares end in the same way.
    have hcut : Patchwork.executeLines 1 0 (earlier ++ [raw]) patcher =
        Patchwork.executeLines 1 0 lines patcher ∧
          ((Patchwork.executeLines 1 0 (earlier ++ [raw]) patcher).1.2.isSome = true ∨
            (Patchwork.executeLines 1 0 (earlier ++ [raw]) patcher).2.world.stopping = true) := by
      rcases hends with ⟨fault, hfails⟩ | hstops
      · rw [hfails.executeLines hrunning, hfails.cut.executeLines hrunning]
        exact ⟨rfl, Or.inl rfl⟩
      · rw [hstops.executeLines hrunning, hstops.cut.executeLines hrunning]
        obtain ⟨-, -, -, -, hlast⟩ := hstops
        exact ⟨rfl, Or.inr hlast⟩
    have htexts := executeLines_unnumbered 1 0 (earlier ++ [raw]) patcher
    rw [← hlater, executeTexts_append later, ← htexts, hcut.1, executeLines_unnumbered]
    rw [← htexts, Option.isSome_map]
    exact hcut.2

end Patcher

/-- The notice about a line that has failed. -/
def LineFault.notice (failure : LineFault) (mod : String) : Notice :=
  ⟨.error, .patching, mod ++ ": patch failed: " ++ failure.message⟩

/-- Runs that end alike.  They differ at most in the number of the line that failed, which
stands in the error and in the last notice. -/
structure EndsAlike {Place : Type} (ran ran' : RunResult × Patcher × Place) : Prop where
  result : ran'.1 = { ran.1 with error := ran'.1.error, failedLine := ran'.1.failedLine }
  patcher : ran'.2.1 =
    { ran.2.1 with world := { ran.2.1.world with journal := ran'.2.1.world.journal } }
  place : ran'.2.2 = ran.2.2
  numbers : ran' = ran ∨ ∃ (journal : Journal) (failure failure' : LineFault),
    failure'.unnumbered = failure.unnumbered ∧
      ran.1.failedLine = some failure.number ∧ ran.1.error = some failure.message ∧
      ran.2.1.world.journal = journal.push (failure.notice ran.1.mod) ∧
      ran'.1.failedLine = some failure'.number ∧ ran'.1.error = some failure'.message ∧
      ran'.2.1.world.journal = journal.push (failure'.notice ran.1.mod)

/-- Scripts that state the same up to and including the first line that fails or asks to
stop, whatever else stands in them, lead to the same result, the same patcher and the same
calls of the save operation.  Only the number of a line that failed may be another. -/
theorem Patcher.runLines_of_statesAlike {Place : Type} (patcher : Patcher) (save : Save Place)
    (place : Place) (mod : Mod) {lines lines' : List String}
    (halike : (patcher.reset.start mod).StatesAlike lines lines') :
    EndsAlike (patcher.runLines save.recorded (place, []) lines mod)
      (patcher.runLines save.recorded (place, []) lines' mod) := by
  have hends := halike.executeTexts rfl
  rw [← executeLines_unnumbered 1, ← executeLines_unnumbered 1] at hends
  rw [runLines, runLines, runPrepared, runPrepared]
  generalize executeLines 1 0 lines (patcher.reset.start mod) = ended,
    executeLines 1 0 lines' (patcher.reset.start mod) = ended' at hends ⊢
  obtain ⟨⟨executed, failure⟩, after⟩ := ended
  obtain ⟨⟨executed', failure'⟩, after'⟩ := ended'
  obtain ⟨⟨rfl, hfailure⟩, rfl⟩ : (executed' = executed ∧
      failure'.map LineFault.unnumbered = failure.map LineFault.unnumbered) ∧ after' = after := by
    simpa only [Prod.mk.injEq] using hends
  cases failure with
  | none =>
    obtain rfl := Option.map_eq_none_iff.mp hfailure
    exact ⟨rfl, rfl, rfl, Or.inl rfl⟩
  | some failure =>
    obtain ⟨failure', rfl, hsame⟩ := Option.map_eq_some_iff.mp hfailure
    exact ⟨rfl, rfl, rfl, Or.inr ⟨after'.world.journal, failure, failure', hsame, rfl, rfl, rfl,
      rfl, rfl, rfl⟩⟩

/-- A script whose second statement assigns nothing. -/
def unfinished : List String :=
  ["limit := 5", "limit :="]

/-- The same statements with remarks, and with others behind them. -/
def remarked : List String :=
  ["; how much at most", "  limit := 5  ; for now", "", "limit :=   ; not yet known", "@Stop()"]

theorem unfinished_remarked :
    let ran := Patcher.runLines {} savedAnywhere.recorded ((), []) unfinished { name := "sharper" }
    let ran' := Patcher.runLines {} savedAnywhere.recorded ((), []) remarked { name := "sharper" }
    EndsAlike ran ran' ∧ ran.1.failedLine = some 2 ∧ ran'.1.failedLine = some 4 := by
  have hfails : ∃ fault, (Patcher.start (Patcher.reset {}) { name := "sharper" }).FailsAt
      unfinished ["limit := 5"] "limit :=" fault := by
    obtain ⟨fault, hfault⟩ := Option.isSome_iff_exists.mp
      (show (((Patcher.start (Patcher.reset {}) { name := "sharper" }).leftBy
        ["limit := 5"]).lineFault? "limit :=").isSome = true by decide +kernel)
    refine ⟨fault, [], rfl, ⟨?_, by decide +kernel, trivial⟩, hfault⟩
    rw [← Option.isNone_iff_eq_none]
    decide +kernel
  have halike : (Patcher.start (Patcher.reset {}) { name := "sharper" }).StatesAlike
      unfinished remarked :=
    Or.inr ⟨_, _, Or.inl hfails, by decide +kernel⟩
  exact ⟨Patcher.runLines_of_statesAlike {} savedAnywhere () _ halike, by decide +kernel,
    by decide +kernel⟩

end Patchwork
