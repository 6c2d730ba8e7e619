import Patchwork.Proofs.Agreement
import Patchwork.Proofs.Workspace.Directories

/-!
# What jobs do to a directory

A job changes the directory and adds notices, and the rest of the workspace stays.
What it does is told by a condition on its result, if it has one, and on the directory
after it; the notices are left open, since nothing but the log of a run depends on them.
-/

namespace Patchwork

namespace Workspace

/-- A workspace with another directory and other notices. -/
def at_ (frame : Workspace) (directory : Directory) (journal : Journal) : Workspace :=
  { frame with directory := directory, journal := journal }

@[simp]
theorem directory_at_ (frame : Workspace) (directory : Directory) (journal : Journal) :
    (frame.at_ directory journal).directory = directory := rfl

end Workspace

namespace Job

/-- From a directory a job ends with a result, or without one, and with a directory as
described, whatever the notices before it. -/
def Ends {Result : Type} (frame : Workspace) (job : Job Result) (before : Directory)
    (described : Option Result → Directory → Prop) : Prop :=
  ∀ journal, ∃ outcome after later,
    job.run (frame.at_ before journal) = (outcome, frame.at_ after later) ∧
      described outcome.toOption after

/-- From a directory a job ends with this result, or with none, and this directory. -/
def Gives {Result : Type} (frame : Workspace) (job : Job Result) (before : Directory)
    (result? : Option Result) (after : Directory) : Prop :=
  Ends frame job before fun result later => result = result? ∧ later = after

section

variable {Result Next : Type} {frame : Workspace} {job : Job Result} {next : Result → Job Next}
  {before between after : Directory} {result? : Option Result}
  {described weaker : Option Result → Directory → Prop}
  {concluded : Option Next → Directory → Prop}

theorem Ends.mono (hjob : Ends frame job before described)
    (hweaker : ∀ result after, described result after → weaker result after) :
    Ends frame job before weaker := by
  intro journal
  obtain ⟨outcome, after, later, hrun, hdescribed⟩ := hjob journal
  exact ⟨outcome, after, later, hrun, hweaker _ _ hdescribed⟩

theorem Ends.bind (hjob : Ends frame job before described)
    (hnext : ∀ result between, described (some result) between →
      Ends frame (next result) between concluded)
    (hfault : ∀ between, described none between → concluded none between) :
    Ends frame (job >>= next) before concluded := by
  intro journal
  obtain ⟨outcome, between, later, hrun, hdescribed⟩ := hjob journal
  rw [Agree.Computations.run_bind, hrun]
  cases outcome with
  | ok result => exact hnext result between hdescribed later
  | error fault => exact ⟨.error fault, between, later, rfl, hfault between hdescribed⟩

theorem Ends.get_bind {next : Workspace → Job Next}
    (hnext : ∀ journal, Ends frame (next (frame.at_ before journal)) before concluded) :
    Ends frame (get >>= next) before concluded :=
  fun journal => hnext journal journal

/-- A job whose fault is not passed on, and what is done about its outcome. -/
theorem Ends.attempt_bind {next : Except FileFault Result → Job Next}
    (hjob : Ends frame job before described)
    (hnext : ∀ outcome between, described outcome.toOption between →
      Ends frame (next outcome) between concluded) :
    Ends frame (attempt job >>= next) before concluded := by
  intro journal
  obtain ⟨outcome, between, later, hrun, hdescribed⟩ := hjob journal
  have hattempt : (attempt job).run (frame.at_ before journal) =
      (.ok outcome, frame.at_ between later) := by
    rw [attempt, Agree.Computations.run_tryCatch, Agree.Computations.run_bind, hrun]
    cases outcome <;> rfl
  rw [Agree.Computations.run_bind, hattempt]
  exact hnext outcome between hdescribed later

theorem Gives.ends (hjob : Gives frame job before result? after)
    (hdescribed : described result? after) : Ends frame job before described :=
  hjob.mono fun _ _ hgiven => hgiven.1 ▸ hgiven.2 ▸ hdescribed

theorem Gives.bind (hjob : Gives frame job before result? between)
    (hnext : ∀ result, result? = some result → Ends frame (next result) between concluded)
    (hnone : result? = none → concluded none between) :
    Ends frame (job >>= next) before concluded := by
  refine Ends.bind hjob (fun result after hgiven => ?_) fun after hgiven => ?_
  · rw [hgiven.2]
    exact hnext result hgiven.1.symm
  · rw [hgiven.2]
    exact hnone hgiven.1.symm

/-- The first of two jobs gives what the second one starts with. -/
theorem Gives.andThen {result : Result} (hjob : Gives frame job before (some result) between)
    (hnext : Ends frame (next result) between concluded) :
    Ends frame (job >>= next) before concluded :=
  hjob.bind (fun _ hresult => Option.some.inj hresult ▸ hnext) nofun

/-- Two jobs that leave the directory as it is. -/
theorem Gives.bind_some {next? : Result → Option Next}
    (hjob : Gives frame job before result? before)
    (hnext : ∀ result, result? = some result →
      Gives frame (next result) before (next? result) before) :
    Gives frame (job >>= next) before (result? >>= next?) before := by
  refine hjob.bind (fun result hresult => ?_) fun hnone => ?_
  · rw [hresult]
    exact hnext result hresult
  · rw [hnone]
    exact ⟨rfl, rfl⟩

theorem gives_pure (result : Result) : Gives frame (pure result) before (some result) before :=
  fun journal => ⟨.ok result, before, journal, rfl, rfl, rfl⟩

theorem gives_foldlM {Item : Type} {step : Result → Item → Job Result}
    {step? : Result → Item → Option Result} {items : List Item}
    (hstep : ∀ result, ∀ item ∈ items,
      Gives frame (step result item) before (step? result item) before) (result : Result) :
    Gives frame (items.foldlM step result) before (items.foldlM step? result) before := by
  induction items generalizing result with
  | nil => exact gives_pure result
  | cons item rest ih =>
    rw [List.foldlM_cons, List.foldlM_cons]
    exact (hstep result item List.mem_cons_self).bind_some fun next _ =>
      ih (fun result other hother => hstep result other (List.mem_cons_of_mem _ hother)) next

theorem gives_throw (fault : FileFault) :
    Gives frame (throw fault : Job Result) before none before :=
  fun journal => ⟨.error fault, before, journal, rfl, rfl, rfl⟩

theorem gives_set (journal : Journal) (after : Directory) :
    Gives frame (set { frame.at_ before journal with directory := after } : Job PUnit) before
      (some ⟨⟩) after :=
  fun _ => ⟨.ok ⟨⟩, after, journal, rfl, rfl, rfl⟩

theorem gives_noteAll (notices : List Notice) :
    Gives frame (noteAll notices) before (some ()) before :=
  fun journal => ⟨.ok (), before, journal ++ notices.toArray, rfl, rfl, rfl⟩

theorem gives_shaped (outcome : Except ShapeFault Result) :
    Gives frame (shaped outcome) before outcome.toOption before := by
  cases outcome with
  | ok result => exact gives_pure result
  | error fault => exact gives_throw (.shape fault)

end

/-! ## Files -/

section

variable {frame : Workspace} {directory : Directory} {path : Path} {place : Place}

theorem gives_checkPath (hleads : directory.Leads path place) :
    Gives frame (checkPath path.text) directory (some ()) directory := by
  rw [checkPath, hleads.noNull_text]
  exact gives_pure ()

theorem gives_read (hleads : directory.Leads path place) :
    Gives frame (read path) directory (directory.files.get? place) directory := by
  rw [read, readAsked]
  refine (gives_checkPath hleads).andThen (Ends.get_bind fun journal => ?_)
  rw [hleads.normal.ofText_eq, Workspace.directory_at_, hleads.content?]
  cases directory.files.get? place with
  | none => exact gives_throw _
  | some content => exact gives_pure content

theorem gives_readScript (hleads : directory.Leads path place) :
    Gives frame (readScript path.text) directory
      ((directory.files.get? place).map fun content => Text.scriptLines content.textOf)
      directory := by
  rw [readScript, Option.map_eq_bind]
  exact (gives_read hleads).bind_some fun content _ => gives_pure _

theorem gives_write (hleads : directory.Leads path place) (content : Content) :
    Gives frame (write path content) directory (some ()) (directory.put place content) := by
  rw [write]
  apply Ends.get_bind
  intro journal
  rw [Workspace.directory_at_, hleads.write? content]
  exact gives_set journal _

end

end Job

end Patchwork
