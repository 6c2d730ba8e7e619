import Patchwork.Mod.File
import Patchwork.Proofs.Entries
import Patchwork.Proofs.Mod.Headers
import Patchwork.Proofs.Results

/-!
# Mod files that are read again

A mod file that is in order is what is read from its document, under its own name or
under none.  Whatever was read from a document is in order, so a file that was read once
is read again as it is, even where the first document left things out.
-/

namespace Patchwork

/-- No category of links stands in a record twice, and no target in a category. -/
structure ProperLinks (links : Links) : Prop where
  categories : links.Distinct
  targets : ∀ entry ∈ links, entry.2.Distinct

namespace ModFile

/-- A file whose header and whose links are in order. -/
structure Proper (file : ModFile) : Prop where
  dependencies : ProperHeader file.name file.dependencies
  references : ProperHeader file.name file.references
  links : ∀ record ∈ file.records, ProperLinks record.links

/-- The file with records that are records of no mod. -/
def released (file : ModFile) : ModFile :=
  { file with records := file.records.map fun record => { record with mod := "" } }

/-! ## Reading what was written -/

theorem shaped_listing (items : List Plain) : shaped (Plain.list items).listing = .ok items := by
  rw [Plain.listing_list]
  rfl

theorem readTargets_document (targets : Entries String (List Int)) :
    readTargets (targets.map fun (target, payload) =>
      (.str target, .list (payload.map .int))) = .ok targets := by
  induction targets with
  | nil => rfl
  | cons entry rest ih =>
    obtain ⟨target, payload⟩ := entry
    have hnumbers : (payload.map Plain.int).mapM Plain.integer = .ok (payload.map fun n => n) :=
      mapM_map_eq_ok fun _ _ => rfl
    rw [List.map_id'] at hnumbers
    have hlisted : (Plain.listing (.list (payload.map .int)) >>= fun elements =>
        elements.mapM Plain.integer) = .ok payload := by
      rw [Plain.listing_list]
      exact hnumbers
    rw [List.map_cons, readTargets, hlisted, ih]
    rfl

theorem readCategories_document {links : Links} (htargets : ∀ entry ∈ links, entry.2.Distinct) :
    readCategories (links.map fun (category, targets) =>
      (.str category, .mapping (targets.map fun (target, payload) =>
        (.str target, .list (payload.map .int))))) = .ok links := by
  induction links with
  | nil => rfl
  | cons entry rest ih =>
    obtain ⟨category, targets⟩ := entry
    have hfirst := Entries.ofPairs_of_distinct (htargets (category, targets) List.mem_cons_self)
    have hrest := ih fun entry hentry => htargets entry (List.mem_cons_of_mem _ hentry)
    rw [List.map_cons, readCategories, Plain.entries_mapping, hrest]
    change (readTargets _ >>= _) = _
    rw [readTargets_document]
    change Except.ok _ = _
    rw [hfirst]
    rfl

/-- The links of an entry are found in it, also where it mentions none. -/
theorem readCategories_entry {record : Record} (hlinks : ProperLinks record.links) :
    ∃ pairs, (valueOf ([(.str "string_id", .str record.id), (.str "type", .str record.kind),
      (.str "name", .str record.name), (.str "new", .bool record.isNew),
      (.str "fields", .mapping record.fields)] ++
        if record.links.isEmpty then []
        else [(.str "extra_data", linksDocument record.links)]) "extra_data").entries = .ok pairs ∧
      readCategories pairs = .ok record.links := by
  cases hempty : record.links.isEmpty with
  | true =>
    refine ⟨[], rfl, ?_⟩
    rw [List.isEmpty_iff.mp hempty]
    rfl
  | false =>
    refine ⟨_, ?_, readCategories_document hlinks.targets⟩
    rw [← Plain.entries_mapping]
    rfl

theorem text_of_isFilled (text : String) :
    (if (Plain.str text).isFilled then (Plain.str text).text else "") = text := by
  by_cases hempty : text = ""
  · rw [hempty]
    rfl
  · rw [if_pos (by simpa [Plain.isFilled] using hempty), Plain.text]

/-- A record is read again from its entry, as a record of no mod. -/
theorem readRecord_entry (path : Path) {record : Record} (hlinks : ProperLinks record.links) :
    readRecord path (entry record) = .ok { record with mod := "" } := by
  obtain ⟨pairs, hpairs, hcategories⟩ := readCategories_entry hlinks
  rw [entry, readRecord, hpairs]
  change (readCategories pairs >>= _) = _
  rw [hcategories]
  change Except.ok _ = _
  rw [Entries.ofPairs_of_distinct hlinks.categories]
  refine congrArg Except.ok ?_
  change Record.mk record.id record.kind _ "" record.isNew record.fields record.links = _
  rw [show valueOf _ "name" = Plain.str record.name from rfl, text_of_isFilled]

/-- The document of a file in order is read as the file again. -/
theorem ofDocument_document (path : Path) {asked : Option String} {file : ModFile}
    (hproper : file.Proper) (hname : nameOf path asked file.name = file.name) :
    ofDocument path asked file.document = .ok file.released := by
  change (shaped (Plain.list (file.records.map entry)).listing >>= _) = _
  rw [shaped_listing]
  change ((file.records.map entry).mapM (readRecord path) >>= _) = _
  rw [mapM_map_eq_ok fun record hrecord => readRecord_entry path (hproper.links record hrecord)]
  change (shaped (Plain.list file.dependencies).listing >>= _) = _
  rw [shaped_listing]
  change (shaped (Plain.list file.references).listing >>= _) = _
  rw [shaped_listing]
  change Except.ok (ModFile.mk (nameOf path asked file.name)
    (header (nameOf path asked file.name) file.dependencies)
    (header (nameOf path asked file.name) file.references) _) = _
  rw [hname, header, header, hproper.dependencies.foldl_nil, hproper.references.foldl_nil]
  rfl

/-! ## What was read -/

theorem targets_of_readCategories {pairs : List (Plain × Plain)} {links : Links}
    (hread : readCategories pairs = .ok links) : ∀ entry ∈ links, entry.2.Distinct := by
  induction pairs generalizing links with
  | nil =>
    cases hread
    exact nofun
  | cons pair rest ih =>
    obtain ⟨category, targets⟩ := pair
    rw [readCategories] at hread
    obtain ⟨entries, -, hread⟩ := exists_of_bind_eq_ok hread
    obtain ⟨first, -, hread⟩ := exists_of_bind_eq_ok hread
    obtain ⟨others, hothers, hread⟩ := exists_of_bind_eq_ok hread
    cases hread
    rintro entry (_ | ⟨_, hentry⟩)
    · exact Entries.distinct_ofPairs first
    · exact ih hothers entry hentry

theorem proper_of_readRecord {path : Path} {value : Plain} {record : Record}
    (hread : readRecord path value = .ok record) :
    ProperLinks record.links ∧ record.mod = "" := by
  cases value with
  | mapping entries =>
    rw [readRecord] at hread
    obtain ⟨id, -, hread⟩ := exists_of_bind_eq_ok hread
    obtain ⟨kind, -, hread⟩ := exists_of_bind_eq_ok hread
    obtain ⟨listed, -, hread⟩ := exists_of_bind_eq_ok hread
    obtain ⟨links, hlinks, hread⟩ := exists_of_bind_eq_ok hread
    obtain ⟨fields, -, hread⟩ := exists_of_bind_eq_ok hread
    cases hread
    refine ⟨⟨Entries.distinct_ofPairs links, fun entry hentry => ?_⟩, rfl⟩
    obtain hnone | ⟨pair, hpair, hsame⟩ := Entries.mem_putAll hentry
    · cases hnone
    · rw [hsame]
      exact targets_of_readCategories hlinks pair hpair
  | _ => cases hread

/-- A file that was read is in order, and its records are records of no mod yet. -/
theorem proper_of_ofDocument {path : Path} {asked : Option String} {document : Plain}
    {file : ModFile} (hread : ofDocument path asked document = .ok file) :
    file.Proper ∧ (∀ record ∈ file.records, record.mod = "") ∧
      ∃ stated, file.name = nameOf path asked stated := by
  rw [ofDocument] at hread
  split at hread
  · obtain ⟨listed, -, hread⟩ := exists_of_bind_eq_ok hread
    obtain ⟨records, hrecords, hread⟩ := exists_of_bind_eq_ok hread
    obtain ⟨dependencies, -, hread⟩ := exists_of_bind_eq_ok hread
    obtain ⟨references, -, hread⟩ := exists_of_bind_eq_ok hread
    cases hread
    have hrecord : ∀ record ∈ records, ProperLinks record.links ∧ record.mod = "" := by
      intro record hrecord
      obtain ⟨value, -, hvalue⟩ := exists_of_mapM_eq_ok hrecords record hrecord
      exact proper_of_readRecord hvalue
    exact ⟨⟨(ProperHeader.nil _).foldl _, (ProperHeader.nil _).foldl _,
      fun record hmem => (hrecord record hmem).1⟩, fun record hmem => (hrecord record hmem).2,
      _, rfl⟩
  · cases hread

/-! ## Reading again -/

/-- A file is asked for by no other name than the given one; the empty name is none. -/
def AsksNoOther (asked : Option String) (name : Plain) : Prop :=
  ∀ given ∈ asked, given = "" ∨ name = .str given

/-- A file that states its name has it, unless it is asked for by another one. -/
theorem nameOf_eq_self {path : Path} {asked : Option String} {name : Plain}
    (hname : name.isFilled = true ∨ name = .str path.name) (hasked : AsksNoOther asked name) :
    nameOf path asked name = name := by
  rw [nameOf]
  cases hgiven : asked.filter (· != "") with
  | none =>
    rcases hname with hfilled | rfl
    · simp [hfilled]
    · exact ite_self _
  | some given =>
    obtain ⟨hmem, hne⟩ := Option.filter_eq_some_iff.mp hgiven
    exact ((hasked given hmem).resolve_left (by simpa using hne)).symm

theorem isFilled_nameOf (path : Path) (asked : Option String) (stated : Plain) :
    (nameOf path asked stated).isFilled = true ∨ nameOf path asked stated = .str path.name := by
  rw [nameOf]
  cases hgiven : asked.filter (· != "") with
  | none =>
    cases hfilled : stated.isFilled with
    | true => exact Or.inl hfilled
    | false => exact Or.inr rfl
  | some given => exact Or.inl (Option.filter_eq_some_iff.mp hgiven).2

/-- A file that was read once is read again from its document, under the same name or under
none, from the same path or, if the path has a name, from any other. -/
theorem ofDocument_again {path target : Path} {asked again : Option String} {document : Plain}
    {file : ModFile} (hread : ofDocument path asked document = .ok file)
    (htarget : target = path ∨ path.name ≠ "")
    (hagain : AsksNoOther again file.name) :
    ofDocument target again file.document = .ok file := by
  obtain ⟨hproper, hmods, stated, hstated⟩ := proper_of_ofDocument hread
  have hname : file.name.isFilled = true ∨ file.name = .str target.name := by
    have hfilled := isFilled_nameOf path asked stated
    rw [← hstated] at hfilled
    rcases htarget with rfl | hpath
    · exact hfilled
    · refine Or.inl (hfilled.elim id fun hsame => ?_)
      rw [hsame]
      simpa [Plain.isFilled] using hpath
  have hrecords : (file.records.map fun record => { record with mod := "" }) = file.records := by
    refine (List.map_congr_left fun record hrecord => ?_).trans (List.map_id _)
    rw [← hmods record hrecord]
    rfl
  rw [ofDocument_document target hproper (nameOf_eq_self hname hagain), released, hrecords]

end ModFile

end Patchwork
