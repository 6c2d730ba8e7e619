import Mathlib.Data.List.Induction
import Patchwork.Proofs.Workspace.Repetition

/-!
# Whose copies are kept

The copy of a mod is named by the stem of the mod alone, so mods that differ in nothing
but their suffix have one copy between them.  It is of the one that is run first, and the
others are loaded from it and run on it.  A mod that shares its stem with no other one
that is run has its own copy.
-/

namespace Patchwork

namespace Directory

variable {start now after : Directory} {place mod other owner : Place}
  {saved? : Option Plain} {made wider : Place → Prop}

/-- Two places with the same stem in the same folder. -/
def SameStem (first second : Place) : Prop :=
  sibling first "" = sibling second ""

theorem IsMod.sibling_eq (hmod : start.IsMod mod) (hother : start.IsMod other)
    (hstem : SameStem mod other) (suffix : String) : sibling mod suffix = sibling other suffix := by
  obtain ⟨here, name, rfl, -⟩ := hmod.exists_name
  obtain ⟨here', name', rfl, -⟩ := hother.exists_name
  rw [SameStem, sibling_append, sibling_append, String.append_empty, String.append_empty] at hstem
  obtain ⟨rfl, hnames⟩ := List.append_inj' hstem rfl
  rw [sibling_append, sibling_append, (List.cons.inj hnames).1]

instance (place : Place) : Decidable (IsCopy place) :=
  inferInstanceAs (Decidable (_ = _))

theorem IsMod.isCopy_sibling (hmod : start.IsMod mod) : IsCopy (sibling mod ".unpatched") :=
  hmod.suffix_sibling (by decide)

/-- A run of a mod with another stem keeps the copy. -/
theorem Patched.copy_eq (hpatched : now.Patched mod saved? after) (hmod : start.IsMod mod)
    (hother : start.IsMod other) (hstem : ¬ SameStem mod other) :
    after.files.get? (sibling other ".unpatched") = now.files.get? (sibling other ".unpatched") :=
  hpatched.others _ (hmod.ne_sibling hother (by decide)).symm
    (fun hsame => hstem (hmod.sibling_inj hother (by decide) (by decide) hsame.symm).1)
    (fun hsame => hstem (hmod.sibling_inj hother (by decide) (by decide) hsame.symm).1)

/-! ## Directories that runs lead to -/

/-- A directory that runs of mods lead to.  The copy for a stem is of one of the mods with
it, one that made the copy, and as long as there is none these mods are as they were. -/
structure Copied (start : Directory) (made : Place → Prop) (now : Directory) : Prop
    extends start.Reworked now where
  copies : ∀ mod, start.IsMod mod →
    (now.files.get? (sibling mod ".unpatched") = none ∧
      now.files.get? mod = start.files.get? mod) ∨
    ∃ owner, start.IsMod owner ∧ SameStem owner mod ∧ made owner ∧
      now.files.get? (sibling mod ".unpatched") = start.files.get? owner

namespace Copied

theorem refl (hnone : ∀ place, IsCopy place → start.files.get? place = none)
    (made : Place → Prop) : start.Copied made start :=
  ⟨.refl start, fun _ hmod => .inl ⟨hnone _ hmod.isCopy_sibling, rfl⟩⟩

theorem mono (hcopied : start.Copied made now) (hwider : ∀ owner, made owner → wider owner) :
    start.Copied wider now :=
  ⟨hcopied.toReworked, fun mod hmod => (hcopied.copies mod hmod).imp_right
    fun ⟨owner, howner, hstem, hmade, hcopy⟩ =>
      ⟨owner, howner, hstem, hwider owner hmade, hcopy⟩⟩

/-- A run starts from the mod itself if there is no copy, and from the copy there is. -/
theorem pristine?_cases (hcopied : start.Copied made now) (hmod : start.IsMod mod) :
    (now.files.get? (sibling mod ".unpatched") = none ∧
      now.pristine? mod = start.files.get? mod) ∨
    ∃ owner, start.IsMod owner ∧ SameStem owner mod ∧ made owner ∧
      now.files.get? (sibling mod ".unpatched") = start.files.get? owner ∧
      now.pristine? mod = start.files.get? owner := by
  obtain ⟨hnone, hsame⟩ | ⟨owner, howner, hstem, hmade, hcopy⟩ := hcopied.copies mod hmod
  · exact .inl ⟨hnone, by rw [pristine?, hnone, Option.none_or, hsame]⟩
  · refine .inr ⟨owner, howner, hstem, hmade, hcopy, ?_⟩
    obtain ⟨content, hcontent⟩ := Option.isSome_iff_exists.mp howner.present
    rw [pristine?, hcopy, hcontent, Option.some_or]

/-- A run makes a copy of its mod if there is none for the stem, and keeps all copies. -/
theorem of_patched (hcopied : start.Copied made now) (hmod : start.IsMod mod)
    (hpatched : now.Patched mod saved? after)
    (hmade : now.files.get? (sibling mod ".unpatched") = none →
      after.files.get? (sibling mod ".unpatched") = start.files.get? mod → made mod) :
    start.Copied made after where
  toReworked := hcopied.toReworked.of_patched hmod hpatched
  copies other hother := by
    by_cases hstem : SameStem mod other
    · -- The copy of the other mod is the one the run starts from.
      refine .inr ?_
      rw [← hmod.sibling_eq hother hstem]
      obtain ⟨hnone, hpristine⟩ | ⟨owner, howner, hshared, hmadeOwner, -, hpristine⟩ :=
        hcopied.pristine?_cases hmod
      · have hafter := hpatched.pristine.trans hpristine
        exact ⟨mod, hmod, hstem, hmade hnone hafter, hafter⟩
      · exact ⟨owner, howner, hshared.trans hstem, hmadeOwner, hpatched.pristine.trans hpristine⟩
    · have hne : other ≠ mod := fun hsame => hstem (congrArg (sibling · "") hsame.symm)
      rw [hpatched.copy_eq hmod hother hstem, hpatched.get?_of_ne hmod hother hne]
      exact hcopied.copies other hother

end Copied

end Directory

/-! ## Commands -/

namespace Workspace

open Directory (IsCopy SameStem)

variable {workspace : Workspace} {settings : Settings} {files : PatchFiles} {mod : Place}
  {asked : String} {commands more : List String} {made : Place → Prop}

/-- A directory of mods and settings for it, which are loaded; several mods may have one
stem. -/
structure Equipped (workspace : Workspace) (settings : Settings) : Prop where
  loaded : workspace.settings = some settings
  suits : workspace.directory.Suits settings

/-- The workspace has no copies of mods. -/
def Unpatched (workspace : Workspace) : Prop :=
  ∀ place, IsCopy place → workspace.contentAt? place = none

theorem unpatched_of_forall (hfiles : ∀ entry ∈ workspace.directory.files, ¬ IsCopy entry.1) :
    workspace.Unpatched := by
  intro place hcopy
  rw [contentAt?]
  cases hcontent : workspace.directory.files.get? place with
  | none => rfl
  | some content =>
    exact absurd hcopy (hfiles (place, content) (Entries.mem_of_get?_self hcontent))

/-- One of the commands asks for a mod and makes a copy of it: there is none for its stem
before. -/
def MakesCopy (workspace : Workspace) (settings : Settings) (commands : List String)
    (mod : Place) : Prop :=
  ∃ before asked later, commands = before ++ asked :: later ∧
    workspace.directory.asked? settings asked = some mod ∧
    (workspace.afterRuns settings before).contentAt? (sibling mod ".unpatched") = none ∧
    (workspace.afterRuns settings (before ++ [asked])).contentAt? (sibling mod ".unpatched") =
      workspace.contentAt? mod

theorem MakesCopy.append (hmakes : workspace.MakesCopy settings commands mod) :
    workspace.MakesCopy settings (commands ++ more) mod := by
  obtain ⟨before, asked, later, rfl, hmakes⟩ := hmakes
  exact ⟨before, asked, later ++ more, by simp, hmakes⟩

theorem afterRuns_concat (workspace : Workspace) (settings : Settings) (commands : List String)
    (asked : String) :
    workspace.afterRuns settings (commands ++ [asked]) =
      ((Command.run asked settings).run (workspace.afterRuns settings commands)).2 := by
  rw [afterRuns, List.foldl_append]
  rfl

theorem copied_afterRuns (hequipped : workspace.Equipped settings)
    (hunpatched : workspace.Unpatched)
    (hcommands : ∀ asked ∈ commands, workspace.directory.Admits settings asked) :
    (workspace.afterRuns settings commands).settings = some settings ∧
      workspace.directory.Copied (workspace.MakesCopy settings commands)
        (workspace.afterRuns settings commands).directory := by
  induction commands using List.reverseRecOn with
  | nil => exact ⟨hequipped.loaded, .refl hunpatched _⟩
  | append_singleton before asked ih =>
    obtain ⟨hsettings, hcopied⟩ := ih fun other hother =>
      hcommands other (List.mem_append_left _ hother)
    have hadmits := hcommands asked (List.mem_append_right _ List.mem_cons_self)
    obtain ⟨hafter, houtcome⟩ := run_of_ends
      ((hcopied.toReworked.ends_outcome hsettings hequipped.suits hadmits).mono
        fun _ _ houtcome => houtcome.2)
    have hbefore : workspace.directory.Copied
        (workspace.MakesCopy settings (before ++ [asked])) _ :=
      hcopied.mono fun _ hmakes => hmakes.append
    rw [← afterRuns_concat] at hafter houtcome
    refine ⟨hafter.trans hsettings, ?_⟩
    obtain ⟨-, hsame⟩ | ⟨mod, hfound, hmod, hpatched⟩ := houtcome
    · exact hsame ▸ hbefore
    · exact hbefore.of_patched hmod hpatched fun hnone hmade =>
        ⟨before, asked, [], rfl, hfound, hnone, hmade⟩

theorem run_backUp (hmodAt : workspace.directory.ModAt files mod) :
    ∃ kept, (backUp files).run workspace = (.ok (), kept) ∧
      kept.directory = workspace.directory.backedUp mod := by
  have hgives : Job.Gives workspace (backUp files) _ _ _ := gives_backUp hmodAt
  obtain ⟨outcome, after, later, hrun, hresult, rfl⟩ := hgives workspace.journal
  obtain rfl : outcome = .ok () := Directory.eq_ok_of_toOption hresult
  exact ⟨workspace.at_ _ later, hrun, rfl⟩

/-- Mods share copies by stem.  After any commands the copy that a mod is given, and the
one it may be loaded from, holds what some mod with its stem held at the start.  That is
the mod itself, unless one of the commands has made the copy of another one first. -/
theorem afterRuns_copies_first (hequipped : workspace.Equipped settings)
    (hunpatched : workspace.Unpatched)
    (hcommands : ∀ asked ∈ commands, workspace.directory.Admits settings asked)
    (hmodAt : workspace.directory.ModAt files mod) :
    ∃ owner, workspace.directory.IsMod owner ∧ SameStem owner mod ∧
      (owner ≠ mod → workspace.MakesCopy settings commands owner) ∧
      (∃ kept, (backUp files).run (workspace.afterRuns settings commands) = (.ok (), kept) ∧
        kept.contentAt? (sibling mod ".unpatched") = workspace.contentAt? owner) ∧
      let loaded := (workspace.afterRuns settings commands).directory
      loaded.place? (files.source loaded) = some mod ∨
        loaded.content? (files.source loaded) = workspace.contentAt? owner := by
  obtain ⟨-, hcopied⟩ := copied_afterRuns hequipped hunpatched hcommands
  have hafterAt := hcopied.toReworked.modAt hmodAt
  obtain ⟨kept, hrun, hkept⟩ := run_backUp hafterAt
  have hcopy : kept.contentAt? (sibling mod ".unpatched") =
      (workspace.afterRuns settings commands).directory.pristine? mod := by
    rw [contentAt?, hkept, Directory.get?_backedUp_pristine]
  have hsource := hafterAt.lead.source
  obtain ⟨hnone, hpristine⟩ | ⟨owner, howner, hstem, hmakes, hthere, hpristine⟩ :=
    hcopied.pristine?_cases hmodAt.mod
  · -- Without a copy the mod is as it was and is loaded from its own file.
    refine ⟨mod, hmodAt.mod, rfl, fun hne => absurd rfl hne,
      ⟨kept, hrun, hcopy.trans hpristine⟩, .inl ?_⟩
    rw [hsource.leads, Directory.baseline, Entries.has, Entries.has, hnone, Option.isSome_none,
      Bool.and_false]
    rfl
  · refine ⟨owner, howner, hstem, fun _ => hmakes, ⟨kept, hrun, hcopy.trans hpristine⟩, ?_⟩
    dsimp only
    rw [hsource.leads, hsource.content?, Directory.baseline]
    split
    · exact .inr hthere
    · exact .inl rfl

/-- A mod without one like it has its own copy, whatever was run before and how often. -/
theorem workshop_keeps_copy :
    ∃ files kept, files.mod = .ofText "weapons.mod" ∧
      (backUp files).run (workshop.afterRuns seededSettings
        ["weapons.mod", "gamedata.base", "weapons.mod"]) = (.ok (), kept) ∧
      kept.contentAt? ["weapons.unpatched"] = workshop.contentAt? ["weapons.mod"] := by
  have hmod : workshop.directory.IsMod ["weapons.mod"] := workshop_isMod_iff.mpr (.inr rfl)
  have hleads : workshop.directory.Leads (.ofText "weapons.mod") ["weapons.mod"] :=
    workshop_arranged.leads (Path.normal_ofText rfl) rfl hmod.present
  obtain ⟨files, hfiles, hmodAt⟩ := workshop_arranged.housed.exists_modAt hmod hleads
  have hknown : ∀ asked ∈ ["weapons.mod", "gamedata.base", "weapons.mod"],
      asked ∈ ["gamedata.base", "weapons.mod"] := by decide
  obtain ⟨owner, howner, hstem, -, ⟨kept, hrun, hkept⟩, -⟩ :=
    afterRuns_copies_first ⟨rfl, workshop_ready.serves.suits⟩
      (unpatched_of_forall (by decide))
      (fun asked hasked => workshop_admits (hknown asked hasked)) hmodAt
  obtain rfl := workshop_arranged.stems _ _ howner hmod hstem
  exact ⟨files, kept, hfiles, hrun, hkept⟩

/-- Two mods with one stem, the second of which depends on the first, and a script. -/
def armory : Workspace :=
  { directory := { files := [
      (["weapons.base"], .document (.mapping [])),
      (["weapons.mod"], .document (.mapping [
        (.str "dependencies", .list [.str "weapons.base"])])),
      (["weapons.patch"], .text "")] }
    settings := some seededSettings }

theorem armory_equipped : armory.Equipped seededSettings where
  loaded := rfl
  suits := by
    refine suits_seededSettings (Directory.housed_of_flat rfl fun entry hentry => ?_)
    have hnamed : entry.1 = ["weapons.base"] ∨ entry.1 = ["weapons.mod"] ∨
        entry.1 = ["weapons.patch"] := by
      simp only [armory, List.mem_cons, List.not_mem_nil, or_false] at hentry
      exact hentry.imp (congrArg Prod.fst) (Or.imp (congrArg Prod.fst) (congrArg Prod.fst))
    obtain hname | hname | hname := hnamed
    all_goals exact ⟨_, hname, ⟨by decide, by decide⟩, by decide, by decide⟩

theorem armory_discovered? :
    armory.directory.discovered? seededSettings =
      some [.ofText "weapons.base", .ofText "weapons.mod"] := by
  have hnames : Text.sorted (armory.directory.namesIn []) =
      ["weapons.base", "weapons.mod", "weapons.patch"] :=
    List.mergeSort_of_pairwise (by decide)
  have hfound : modsIn armory.directory {} modSuffixes =
      [.ofText "weapons.base", .ofText "weapons.mod"] := by
    rw [modsIn, show armory.directory.place? {} = some [] from rfl]
    simp only [hnames]
    rfl
  exact congrArg some hfound

/-- The run of one of the two mods makes the copy for both. -/
theorem armory_patched :
    armory.directory.Patched ["weapons.mod"]
      (armory.directory.saved? seededSettings ["weapons.mod"])
      (armory.afterRuns seededSettings ["weapons.mod"]).directory := by
  have hmod : armory.directory.IsMod ["weapons.mod"] := ⟨rfl, by decide⟩
  have hsaved : (armory.directory.saved? seededSettings ["weapons.mod"]).isSome = true := by
    rw [Directory.saved?, armory_discovered?]
    rfl
  obtain ⟨-, houtcome⟩ := run_of_ends
    (((Directory.Reworked.refl armory.directory).ends_outcome armory_equipped.loaded
      armory_equipped.suits (hmod.admits rfl rfl)).mono fun _ _ houtcome => houtcome.2)
  obtain ⟨hnone, -⟩ | ⟨mod, hfound, -, hpatched⟩ := houtcome
  · rw [show armory.directory.asked? seededSettings "weapons.mod" = some ["weapons.mod"] from rfl,
      Option.bind_some] at hnone
    rw [hnone] at hsaved
    cases hsaved
  · obtain rfl : ["weapons.mod"] = mod := Option.some.inj hfound
    exact hpatched

/-- Once the mod that depends on the other one has been run, the other one is given the
copy of the first as its own, and is loaded from it. -/
theorem armory_shares_copy :
    armory.Equipped seededSettings ∧ armory.Unpatched ∧
      armory.directory.Admits seededSettings "weapons.mod" ∧
      ∃ files kept, files.mod = .ofText "weapons.base" ∧
        armory.directory.ModAt files ["weapons.base"] ∧
        (backUp files).run (armory.afterRuns seededSettings ["weapons.mod"]) = (.ok (), kept) ∧
        kept.contentAt? (sibling ["weapons.base"] ".unpatched") =
          armory.contentAt? ["weapons.mod"] ∧
        (let loaded := (armory.afterRuns seededSettings ["weapons.mod"]).directory
        loaded.place? (files.source loaded) = some ["weapons.unpatched"] ∧
          loaded.content? (files.source loaded) = armory.contentAt? ["weapons.mod"]) ∧
        armory.contentAt? ["weapons.mod"] ≠ armory.contentAt? ["weapons.base"] := by
  have hmod : armory.directory.IsMod ["weapons.mod"] := ⟨rfl, by decide⟩
  have hbase : armory.directory.IsMod ["weapons.base"] := ⟨rfl, by decide⟩
  have hleads : armory.directory.Leads (.ofText "weapons.base") ["weapons.base"] :=
    armory_equipped.suits.housed.leads (Path.normal_ofText rfl) rfl hbase.present
  obtain ⟨files, hfiles, hmodAt⟩ := armory_equipped.suits.housed.exists_modAt hbase hleads
  have hreworked := (Directory.Reworked.refl armory.directory).of_patched hmod armory_patched
  have hafterAt := hreworked.modAt hmodAt
  have hcopy : (armory.afterRuns seededSettings ["weapons.mod"]).directory.files.get?
      ["weapons.unpatched"] = armory.contentAt? ["weapons.mod"] := armory_patched.pristine
  have hscript := hreworked.script hbase
  have hsource := hafterAt.lead.source
  have hbaseline : (armory.afterRuns seededSettings ["weapons.mod"]).directory.baseline
      ["weapons.base"] = ["weapons.unpatched"] := by
    rw [Directory.baseline, Entries.has, Entries.has, hscript,
      show sibling ["weapons.base"] ".unpatched" = ["weapons.unpatched"] from rfl, hcopy]
    rfl
  rw [hbaseline] at hsource
  obtain ⟨kept, hrun, hkept⟩ := run_backUp hafterAt
  refine ⟨armory_equipped, unpatched_of_forall (by decide), hmod.admits rfl rfl, files, kept,
    hfiles, hmodAt, hrun, ?_, ⟨hsource.leads, hsource.content?.trans hcopy⟩, ?_⟩
  · rw [contentAt?, hkept, Directory.get?_backedUp_pristine, Directory.pristine?,
      show sibling ["weapons.base"] ".unpatched" = ["weapons.unpatched"] from rfl, hcopy]
    rfl
  · intro hsame
    cases hsame

end Workspace

end Patchwork
