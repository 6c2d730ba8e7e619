import Patchwork.Proofs.Workspace.Steps

/-!
# Running mods again and again

What a command saves depends on the directory at the start alone, and it saves nothing
but the mod it asks for.  So it does not matter in what order mods are run, or how
often.
-/

namespace Patchwork

namespace Workspace

/-- A directory of mods and settings for it, which are loaded and give a seed. -/
structure Ready (workspace : Workspace) (settings : Settings) : Prop where
  loaded : workspace.settings = some settings
  seeded : ∃ number, settings.seed = .ok (some number, [])
  serves : workspace.directory.Serves settings

/-- The workspace after commands to run mods, one after the other. -/
def afterRuns (workspace : Workspace) (settings : Settings) (commands : List String) :
    Workspace :=
  commands.foldl (fun workspace asked => ((Command.run asked settings).run workspace).2) workspace

/-- Whether a command to run a mod would end with the mod saved. -/
def saves (workspace : Workspace) (settings : Settings) (asked : String) : Bool :=
  isSaved (((Command.outcome asked settings).run workspace).1.toOption.bind Except.toOption)

/-- What a file holds. -/
def contentAt? (workspace : Workspace) (place : Place) : Option Content :=
  workspace.directory.files.get? place

section

variable {workspace : Workspace} {settings : Settings} {start : Directory} {place mod : Place}
  {asked : String} {commands : List String}

/-- What the run of a command does to the directory, the command does. -/
theorem run_of_ends {described : Directory → Prop}
    (houtcome : Job.Ends workspace (Command.outcome asked settings) workspace.directory
      fun _ after => described after) :
    ((Command.run asked settings).run workspace).2.settings = workspace.settings ∧
      described ((Command.run asked settings).run workspace).2.directory := by
  obtain ⟨outcome, after, later, hrun, hafter⟩ := ends_run houtcome workspace.journal
  have hrun' : (Command.run asked settings).run workspace = (outcome, workspace.at_ after later) :=
    hrun
  rw [hrun']
  exact ⟨rfl, hafter⟩

theorem run_step (hsettings : workspace.settings = some settings)
    (hserves : start.Serves settings) (hadmits : start.Admits settings asked)
    (hlater : start.Later workspace.directory) :
    ((Command.run asked settings).run workspace).2.settings = some settings ∧
      start.Step settings asked workspace.directory
        ((Command.run asked settings).run workspace).2.directory := by
  obtain ⟨hsame, hstep⟩ := run_of_ends ((Directory.ends_step hsettings hserves hadmits hlater).mono
    fun _ _ houtcome => houtcome.2)
  exact ⟨hsame.trans hsettings, hstep⟩

theorem saves_eq (hsettings : workspace.settings = some settings)
    (hserves : start.Serves settings) (hadmits : start.Admits settings asked)
    (hlater : start.Later workspace.directory) :
    workspace.saves settings asked =
      ((start.asked? settings asked).bind (start.saved? settings)).isSome := by
  obtain ⟨outcome, after, later, hrun, hsaved, -⟩ :=
    Directory.ends_step hsettings hserves hadmits hlater workspace.journal
  have hrun' : (Command.outcome asked settings).run workspace =
      (outcome, workspace.at_ after later) := hrun
  rw [saves, hrun', ← hsaved]

/-- A workspace that commands lead to. -/
structure After (start : Directory) (settings : Settings) (workspace : Workspace) : Prop where
  loaded : workspace.settings = some settings
  later : start.Later workspace.directory

theorem after_run (hserves : start.Serves settings) (hadmits : start.Admits settings asked)
    (hafter : After start settings workspace) :
    After start settings ((Command.run asked settings).run workspace).2 := by
  obtain ⟨hloaded, hstep⟩ := run_step hafter.loaded hserves hadmits hafter.later
  exact ⟨hloaded, hstep.later hserves.arranged hafter.later⟩

theorem after_afterRuns (hserves : start.Serves settings)
    (hcommands : ∀ asked ∈ commands, start.Admits settings asked)
    (hafter : After start settings workspace) :
    After start settings (workspace.afterRuns settings commands) := by
  induction commands generalizing workspace with
  | nil => exact hafter
  | cons first rest ih =>
    exact ih (fun asked hasked => hcommands asked (List.mem_cons_of_mem _ hasked))
      (after_run hserves (hcommands first List.mem_cons_self) hafter)

/-- Copies stay. -/
theorem contentAt?_afterRuns_of_isCopy (hserves : start.Serves settings)
    (hcommands : ∀ asked ∈ commands, start.Admits settings asked)
    (hafter : After start settings workspace) (hcopy : Directory.IsCopy place)
    {content : Content} (hcontent : workspace.contentAt? place = some content) :
    (workspace.afterRuns settings commands).contentAt? place = some content := by
  induction commands generalizing workspace with
  | nil => exact hcontent
  | cons first rest ih =>
    have hadmits := hcommands first List.mem_cons_self
    have hstep := (run_step hafter.loaded hserves hadmits hafter.later).2
    exact ih (fun asked hasked => hcommands asked (List.mem_cons_of_mem _ hasked))
      (after_run hserves hadmits hafter) (hstep.get?_of_isCopy hcopy hcontent)

/-- A mod is as its runs save it if there are any, and as it was otherwise. -/
theorem contentAt?_afterRuns_of_isMod (hserves : start.Serves settings)
    (hcommands : ∀ asked ∈ commands, start.Admits settings asked)
    (hafter : After start settings workspace) (hmod : start.IsMod mod) :
    (workspace.afterRuns settings commands).contentAt? mod =
      if ∃ asked ∈ commands, start.asked? settings asked = some mod then
        ((start.saved? settings mod).map Content.document).or (workspace.contentAt? mod)
      else workspace.contentAt? mod := by
  induction commands generalizing workspace with
  | nil => simp [afterRuns]
  | cons first rest ih =>
    have hadmits := hcommands first List.mem_cons_self
    have hstep := (run_step hafter.loaded hserves hadmits hafter.later).2
    have hrest := ih (fun asked hasked => hcommands asked (List.mem_cons_of_mem _ hasked))
      (after_run hserves hadmits hafter)
    have hfirst := hstep.get?_of_isMod hserves.arranged hmod
    change (afterRuns _ settings rest).contentAt? mod = _
    rw [hrest]
    change contentAt? _ mod = _ at hfirst
    rw [hfirst]
    simp only [List.exists_mem_cons_iff]
    by_cases hthis : start.asked? settings first = some mod
    · -- Later runs of the mod save the same document again, or nothing again.
      rw [if_pos hthis, ← Option.or_assoc, Option.or_self, ite_self, if_pos (Or.inl hthis)]
      rfl
    · simp only [hthis, false_or, if_false]
      rfl

theorem Ready.after (hready : workspace.Ready settings) :
    After workspace.directory settings workspace :=
  ⟨hready.loaded, Directory.Later.refl _⟩

/-- Runs of mods do not disturb each other.  After any commands a mod that none of
them asks for is as it was at the start, and a mod that some ask for is as any one of
these alone would have left it: a document if that command saves the mod in its turn,
and otherwise what it was at the start.  A copy stays as it is from when it is there,
and if it was not there at the start it is one of what a mod was then. -/
theorem afterRuns_independent (hready : workspace.Ready settings)
    (hcommands : ∀ asked ∈ commands, workspace.directory.Admits settings asked) :
    (∀ mod, workspace.directory.IsMod mod →
      ((∀ asked ∈ commands, workspace.directory.asked? settings asked ≠ some mod) →
        (workspace.afterRuns settings commands).contentAt? mod = workspace.contentAt? mod) ∧
      ∀ asked ∈ commands, workspace.directory.asked? settings asked = some mod →
        (workspace.afterRuns settings commands).contentAt? mod =
            (workspace.afterRuns settings [asked]).contentAt? mod ∧
          ∀ before later, commands = before ++ asked :: later →
            if (workspace.afterRuns settings before).saves settings asked then
              ∃ document, (workspace.afterRuns settings commands).contentAt? mod =
                some (.document document)
            else
              (workspace.afterRuns settings commands).contentAt? mod =
                workspace.contentAt? mod) ∧
    ∀ place, Directory.IsCopy place → ∀ content,
      (∀ before later, commands = before ++ later →
        (workspace.afterRuns settings before).contentAt? place = some content →
        (workspace.afterRuns settings commands).contentAt? place = some content) ∧
      (workspace.contentAt? place = none →
        (workspace.afterRuns settings commands).contentAt? place = some content →
        ∃ mod, workspace.directory.IsMod mod ∧ place = sibling mod ".unpatched" ∧
          workspace.contentAt? mod = some content) := by
  have hserves := hready.serves
  refine ⟨fun mod hmod => ?_, fun place hcopy content => ⟨?_, fun hstart hend => ?_⟩⟩
  · have hfinal := contentAt?_afterRuns_of_isMod hserves hcommands hready.after hmod
    refine ⟨fun hnever => ?_, fun asked hasked hmodOf => ⟨?_, ?_⟩⟩
    · rw [hfinal, if_neg fun ⟨asked, hasked, hmodOf⟩ => hnever asked hasked hmodOf]
    · have hsingle : (workspace.afterRuns settings [asked]).contentAt? mod = _ :=
        contentAt?_afterRuns_of_isMod hserves
          (fun other hother => List.mem_singleton.mp hother ▸ hcommands asked hasked)
          hready.after hmod
      rw [hfinal, hsingle, if_pos ⟨asked, hasked, hmodOf⟩,
        if_pos ⟨asked, List.mem_cons_self, hmodOf⟩]
    · rintro before later rfl
      rw [if_pos ⟨asked, hasked, hmodOf⟩] at hfinal
      have hbefore : After workspace.directory settings (workspace.afterRuns settings before) :=
        after_afterRuns hserves
          (fun other hother => hcommands other (List.mem_append_left _ hother)) hready.after
      rw [saves_eq hbefore.loaded hserves (hcommands asked hasked) hbefore.later, hmodOf,
        Option.bind_some, hfinal]
      cases workspace.directory.saved? settings mod with
      | none => rfl
      | some document => exact ⟨document, rfl⟩
  · rintro before later rfl hcontent
    have hbefore : After workspace.directory settings (workspace.afterRuns settings before) :=
      after_afterRuns hserves
        (fun other hother => hcommands other (List.mem_append_left _ hother)) hready.after
    rw [afterRuns, List.foldl_append]
    exact contentAt?_afterRuns_of_isCopy hserves
      (fun other hother => hcommands other (List.mem_append_right _ hother)) hbefore hcopy
      hcontent
  · have hafter := after_afterRuns hserves hcommands hready.after
    exact hafter.later.eq_of_isCopy hcopy hstart hend

/-- Settings with a seed, and all else as it is without a document. -/
def seededSettings : Settings :=
  ({} : Settings).set "random_seed" (.int 1)

theorem suits_seededSettings {directory : Directory} (hhoused : directory.Housed) :
    directory.Suits seededSettings where
  housed := hhoused
  extensions := rfl
  order order folder horder _ text htext := by
    obtain rfl : [] = order := Except.ok.inj horder
    cases htext

/-- A game and a mod with a script. -/
def workshop : Workspace :=
  { directory := { files := [
      (["gamedata.base"], .document (.mapping [])),
      (["weapons.mod"], .document (.mapping [])),
      (["weapons.patch"], .text "Price := 100")] }
    settings := some seededSettings }

theorem workshop_cases (hplace : workshop.directory.files.has place = true) :
    place = ["gamedata.base"] ∨ place = ["weapons.mod"] ∨ place = ["weapons.patch"] := by
  by_contra hother
  simp only [not_or] at hother
  simp [workshop, Entries.has, Entries.get?, Ne.symm hother.1, Ne.symm hother.2.1,
    Ne.symm hother.2.2] at hplace

theorem workshop_isMod_iff :
    workshop.directory.IsMod place ↔ place = ["gamedata.base"] ∨ place = ["weapons.mod"] := by
  refine ⟨fun hmod => ?_, ?_⟩
  · obtain rfl | rfl | rfl := workshop_cases hmod.present
    · exact .inl rfl
    · exact .inr rfl
    · exact absurd hmod.suffix (by decide)
  · rintro (rfl | rfl)
    · exact ⟨rfl, by decide⟩
    · exact ⟨rfl, by decide⟩

theorem workshop_isFileName {name : String}
    (hname : name ∈ ["gamedata.base", "weapons.mod", "weapons.patch"]) : IsFileName name := by
  simp only [List.mem_cons, List.not_mem_nil, or_false] at hname
  obtain rfl | rfl | rfl := hname
  all_goals exact ⟨⟨by decide, by decide⟩, by decide, by decide⟩

theorem workshop_arranged : workshop.directory.Arranged where
  toProper := by
    refine (Directory.housed_of_flat rfl fun entry hentry => ?_).toProper
    obtain hname | hname | hname := workshop_cases (Entries.has_of_mem hentry)
    all_goals exact ⟨_, hname, workshop_isFileName (by decide)⟩
  stems first second hfirst hsecond hstem := by
    obtain rfl | rfl := workshop_isMod_iff.mp hfirst
    · obtain rfl | rfl := workshop_isMod_iff.mp hsecond
      · rfl
      · exact absurd hstem (by decide)
    · obtain rfl | rfl := workshop_isMod_iff.mp hsecond
      · exact absurd hstem (by decide)
      · rfl
  free place hmod := by
    obtain rfl | rfl := workshop_isMod_iff.mp hmod
    · decide
    · decide

theorem workshop_ready : workshop.Ready seededSettings where
  loaded := rfl
  seeded := ⟨1, rfl⟩
  serves := {
    arranged := workshop_arranged
    extensions := rfl
    order := (suits_seededSettings workshop_arranged.housed).order }

theorem workshop_admits {asked : String} (hasked : asked ∈ ["gamedata.base", "weapons.mod"]) :
    workshop.directory.Admits seededSettings asked := by
  simp only [List.mem_cons, List.not_mem_nil, or_false] at hasked
  obtain rfl | rfl := hasked
  · exact Directory.IsMod.admits (workshop_isMod_iff.mpr (.inl rfl)) rfl rfl
  · exact Directory.IsMod.admits (workshop_isMod_iff.mpr (.inr rfl)) rfl rfl

/-- Running the mod twice, with a run of the game between, is running it once. -/
theorem workshop_afterRuns :
    (workshop.afterRuns seededSettings
        ["weapons.mod", "gamedata.base", "weapons.mod"]).contentAt? ["weapons.mod"] =
      (workshop.afterRuns seededSettings ["weapons.mod"]).contentAt? ["weapons.mod"] := by
  have hknown : ∀ asked ∈ ["weapons.mod", "gamedata.base", "weapons.mod"],
      asked ∈ ["gamedata.base", "weapons.mod"] := by decide
  have hcommands : ∀ asked ∈ ["weapons.mod", "gamedata.base", "weapons.mod"],
      workshop.directory.Admits seededSettings asked := fun asked hasked =>
    workshop_admits (hknown asked hasked)
  have hmod := (afterRuns_independent workshop_ready hcommands).1 ["weapons.mod"]
    (workshop_isMod_iff.mpr (.inr rfl))
  exact (hmod.2 "weapons.mod" List.mem_cons_self rfl).1

end

end Workspace

end Patchwork
