import Patchwork.Command
import Patchwork.Proofs.Results
import Patchwork.Proofs.Workspace.Jobs

/-!
# Loading mods

What loading the mods of a directory gives depends on what the files hold that the
mods are loaded from, and on nothing else: the path of a file matters for messages
only.
-/

namespace Patchwork

/-! ## What a file states -/

namespace ModFile

theorem toOption_requiredText (first second : Path) (entries : Entries Plain Plain)
    (key : String) :
    (requiredText first entries key).toOption = (requiredText second entries key).toOption := by
  rw [requiredText, requiredText]
  cases Plain.get? entries key <;> rfl

theorem toOption_readRecord (first second : Path) (value : Plain) :
    (readRecord first value).toOption = (readRecord second value).toOption := by
  cases value with
  | mapping entries =>
    rw [readRecord, readRecord, toOption_bind, toOption_bind,
      toOption_requiredText first second entries "string_id"]
    refine Option.bind_congr fun id _ => ?_
    rw [toOption_bind, toOption_bind, toOption_requiredText first second entries "type"]
  | _ => rfl

/-- The mod that a document states under a name. -/
def stated? (name : String) (document : Plain) : Option ModFile :=
  (ofDocument {} (some name) document).toOption

/-- The path of a file only shows in what is wrong with it. -/
theorem toOption_ofDocument {name : String} (hname : name ≠ "") (path : Path)
    (document : Plain) :
    (ofDocument path (some name) document).toOption = stated? name document := by
  have hnameOf : ∀ other stated, nameOf other (some name) stated = .str name := by
    intro other stated
    have hasked : (some name).filter (· != "") = some name :=
      Option.filter_eq_some_iff.mpr ⟨rfl, by simpa using hname⟩
    rw [nameOf, hasked]
  rw [stated?, ofDocument, ofDocument]
  split
  · rw [toOption_bind, toOption_bind]
    simp only [hnameOf]
    refine Option.bind_congr fun listed _ => ?_
    rw [toOption_bind, toOption_bind,
      toOption_mapM_congr (toOption_readRecord path {}) listed]
  · rfl

end ModFile

/-- The mod that the content of a file states under a name. -/
def Content.stated? (name : String) (content : Content) : Option ModFile :=
  content.document?.bind (ModFile.stated? name)

namespace Directory

/-- Where the mod at a place is loaded from: if there are a script and a copy from
before the first run, that copy. -/
def baseline (directory : Directory) (place : Place) : Place :=
  if directory.files.has (sibling place ".patch") &&
      directory.files.has (sibling place ".unpatched") then sibling place ".unpatched"
  else place

/-- The loaded mods with the one at a path. -/
def loadInto? (directory : Directory) (loaded : Repository × Pool) (path : Path) :
    Option (Repository × Pool) := do
  let place ← directory.place? path
  let content ← directory.files.get? (directory.baseline place)
  let file ← content.stated? path.name
  let (pool, mod) := file.toMod loaded.2
  return (loaded.1.add mod, pool)

/-- The mods at some paths, in this order. -/
def load? (directory : Directory) (paths : List Path) : Option (Repository × Pool) :=
  paths.foldlM directory.loadInto? ({}, {})

end Directory

section

variable {frame : Workspace} {directory : Directory} {path : Path} {place : Place}
  {files : PatchFiles}

theorem gives_loadFile (hleads : directory.Leads path place) {name : String} (hname : name ≠ "") :
    Job.Gives frame (loadFile path (some name)) directory
      ((directory.files.get? place).bind (Content.stated? name)) directory := by
  rw [loadFile]
  refine (Job.gives_checkPath hleads).andThen (Job.Ends.get_bind fun journal => ?_)
  rw [Workspace.directory_at_, hleads.content?]
  cases directory.files.get? place with
  | none => exact Job.gives_throw _
  | some content =>
    simp only [Option.map_some, Option.bind_some, Content.stated?]
    cases content.document? with
    | none => exact Job.gives_throw _
    | some document =>
      simp only [Option.bind_some]
      rw [← ModFile.toOption_ofDocument hname path document]
      cases ModFile.ofDocument path (some name) document with
      | error fault => exact Job.gives_throw fault
      | ok file => exact (Job.gives_noteAll _).andThen (Job.gives_pure file)

theorem PatchFiles.Lead.source (hfiles : files.Lead directory place) :
    directory.Leads (files.source directory) (directory.baseline place) := by
  rw [PatchFiles.source, PatchFiles.status, Directory.baseline, hfiles.script.has,
    hfiles.pristine.has]
  cases directory.files.has (sibling place ".patch") with
  | false => exact hfiles.mod
  | true =>
    cases directory.files.has (sibling place ".unpatched") with
    | false => exact hfiles.mod
    | true => exact hfiles.pristine

theorem gives_patchFiles (hmodAt : directory.ModAt files place) :
    Job.Gives frame (patchFiles files.mod) directory (some files) directory := by
  rw [patchFiles, hmodAt.found]
  exact Job.gives_pure files

theorem gives_loadInto (hmodAt : directory.ModAt files place) (loaded : Repository × Pool) :
    Job.Gives frame (loadInto loaded files.mod) directory (directory.loadInto? loaded files.mod)
      directory := by
  rw [loadInto, Directory.loadInto?, hmodAt.lead.mod.leads]
  refine (gives_patchFiles hmodAt).andThen (Job.Ends.get_bind fun journal => ?_)
  rw [Workspace.directory_at_]
  simp only [Option.bind_eq_bind, Option.bind_some]
  rw [← Option.bind_assoc]
  exact (gives_loadFile hmodAt.lead.source hmodAt.name_ne_empty).bind_some fun file _ =>
    Job.gives_pure _

theorem gives_loadRepository {paths : List Path}
    (hpaths : ∀ path ∈ paths, ∃ files place, files.mod = path ∧ directory.ModAt files place) :
    Job.Gives frame (loadRepository paths) directory (directory.load? paths) directory := by
  have hfold : Job.Gives frame (paths.foldlM loadInto ({}, {})) directory
      (directory.load? paths) directory :=
    Job.gives_foldlM (fun loaded path hpath => by
      obtain ⟨files, place, rfl, hmodAt⟩ := hpaths path hpath
      exact gives_loadInto hmodAt loaded) _
  rw [loadRepository, ← bind_pure (directory.load? paths)]
  exact hfold.bind_some fun loaded _ =>
    (Job.gives_noteAll _).andThen (Job.gives_pure loaded)

end

/-! ## Which mods are loaded -/

namespace Directory

/-- The mods of a load order that are there. -/
def listed? (directory : Directory) (folder : Path) : List Plain → Option (List Path)
  | [] => some []
  | value :: rest => do
    let path ← (Settings.pathOf value).toOption
    let others ← directory.listed? folder rest
    return if directory.has (folder.join path) then folder.join path :: others else others

/-- The mods that settings stand for, in load order. -/
def discovered? (directory : Directory) (settings : Settings) : Option (List Path) := do
  match ← settings.loadOrder.toOption with
  | [] =>
    let folder ← settings.modsFolder.toOption
    if !directory.hasFolder folder then return []
    let extensions ← settings.extensions.toOption
    return modsIn directory folder extensions
  | order =>
    let folder ← settings.modsFolder.toOption
    directory.listed? folder order

end Directory

section

variable {frame : Workspace} {directory : Directory} {settings : Settings}

theorem gives_settings (hsettings : frame.settings = some settings) :
    Job.Gives frame (Patchwork.settings none) directory (some settings) directory := by
  rw [Patchwork.settings]
  apply Job.Ends.get_bind
  intro journal
  rw [show (frame.at_ directory journal).settings = some settings from hsettings]
  exact Job.gives_pure settings

theorem gives_listedMods (folder : Path) (order : List Plain) :
    Job.Gives frame (listedMods folder order) directory (directory.listed? folder order)
      directory := by
  induction order with
  | nil => exact Job.gives_pure []
  | cons value rest ih =>
    rw [listedMods, Directory.listed?]
    refine (Job.gives_shaped _).bind_some fun path _ => Job.Ends.get_bind fun journal => ?_
    rw [Workspace.directory_at_]
    cases directory.has (folder.join path) with
    | true => exact ih.bind_some fun others _ => Job.gives_pure _
    | false =>
      rw [← bind_pure (directory.listed? folder rest)] at ih
      exact (Job.gives_noteAll _).andThen ih

theorem gives_discover (hsettings : frame.settings = some settings) :
    Job.Gives frame discover directory (directory.discovered? settings) directory := by
  rw [discover, Directory.discovered?]
  apply (gives_settings hsettings).andThen
  apply (Job.gives_shaped _).bind_some
  intro order _
  cases order with
  | nil =>
    refine (Job.gives_shaped _).bind_some fun folder _ => Job.Ends.get_bind fun journal => ?_
    rw [Workspace.directory_at_]
    cases directory.hasFolder folder with
    | false => exact Job.gives_pure []
    | true =>
      apply Job.Ends.get_bind
      intro journal
      exact (Job.gives_shaped _).bind_some fun extensions _ => Job.gives_pure _
  | cons first rest =>
    exact (Job.gives_shaped _).bind_some fun folder _ => gives_listedMods folder _

end

end Patchwork
