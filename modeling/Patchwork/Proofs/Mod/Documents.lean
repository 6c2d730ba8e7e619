import Patchwork.Proofs.Agreement
import Patchwork.Proofs.Results
import Patchwork.Workspace

/-!
# Documents of the wrong shape

A document is read as a mod if everything in it that is read has the shape it should have.
Whatever is wrong with a document, its entries or what they lack is reported as a fault of
the file, except where there is no telling what a value should be gone through as: the
records, the links or the fields of one of them, or the header.
-/

namespace Patchwork

namespace Plain

/-! ## Shapes -/

/-- What there is to go through in a value that may be left out. -/
inductive Lists : Plain → List Plain → Prop
  | unfilled {value : Plain} (hfilled : value.isFilled = false) : Lists value []
  | list (items : List Plain) : Lists (.list items) items
  | text (shown : String) :
    Lists (.str shown) (shown.toList.map fun char => .str (String.singleton char))
  | mapping (entries : Entries Plain Plain) : Lists (.mapping entries) (entries.map Prod.fst)

/-- The entries of a mapping that may be left out. -/
inductive Maps : Plain → Entries Plain Plain → Prop
  | unfilled {value : Plain} (hfilled : value.isFilled = false) : Maps value []
  | mapping (entries : Entries Plain Plain) : Maps (.mapping entries) entries

/-- An integer can be made of the value. -/
inductive IsIntegral : Plain → Prop
  | bool (flag : Bool) : IsIntegral (.bool flag)
  | int (number : Int) : IsIntegral (.int number)
  | finite (negative : Bool) (units : Nat) (fits : fitsUnits units = true) :
    IsIntegral (.float (.finite negative units fits))
  | numeral {shown : String} (hshown : (Numeral.integer? shown).isSome = true) :
    IsIntegral (.str shown)

/-- A key and something that belongs to it. -/
def IsPair (value : Plain) : Prop :=
  ∃ key content, value.Lists [key, content] ∧ key.isKey = true

/-- The fields of a record. -/
inductive IsFields : Plain → Prop
  | mapping (entries : Entries Plain Plain) : IsFields (.mapping entries)
  | pairs {value : Plain} {elements : List Plain} (hlists : value.Lists elements)
    (hpairs : ∀ element ∈ elements, element.IsPair) : IsFields value

/-- The payload of a link. -/
def IsPayload (value : Plain) : Prop :=
  ∃ elements, value.Lists elements ∧ ∀ element ∈ elements, element.IsIntegral

/-- The links of one category. -/
def IsTargets (value : Plain) : Prop :=
  ∃ entries, value.Maps entries ∧ ∀ entry ∈ entries, entry.2.IsPayload

/-- The links of a record. -/
def IsLinks (value : Plain) : Prop :=
  ∃ entries, value.Maps entries ∧ ∀ entry ∈ entries, entry.2.IsTargets

theorem lists_of_elements? {value : Plain} {elements : List Plain}
    (helements : value.elements? = some elements) : value.Lists elements := by
  cases value with
  | str shown =>
    cases Option.some.inj helements
    exact .text shown
  | list items =>
    cases helements
    exact .list _
  | mapping entries =>
    cases Option.some.inj helements
    exact .mapping entries
  | _ => cases helements

theorem listing_eq_ok_iff {value : Plain} {elements : List Plain} :
    value.listing = .ok elements ↔ value.Lists elements := by
  constructor
  · intro hlisting
    unfold listing at hlisting
    split at hlisting
    · next hunfilled =>
      cases hlisting
      exact .unfilled (by simpa using hunfilled)
    · split at hlisting
      · next elements helements =>
        cases hlisting
        exact lists_of_elements? helements
      · cases hlisting
  · intro hlists
    cases hlists with
    | unfilled hfilled =>
      rw [listing, hfilled]
      rfl
    | list => exact listing_list elements
    | text shown =>
      by_cases hempty : shown = ""
      · subst hempty
        rfl
      · simp [listing, isFilled, elements?, hempty]
    | mapping entries => cases entries <;> simp [listing, isFilled, elements?]

theorem entries_eq_ok_iff {value : Plain} {found : Entries Plain Plain} :
    value.entries = .ok found ↔ value.Maps found := by
  constructor
  · intro hentries
    unfold entries at hentries
    split at hentries
    · next hunfilled =>
      cases hentries
      exact .unfilled (by simpa using hunfilled)
    · cases value <;> cases hentries
      exact .mapping _
  · intro hmaps
    cases hmaps with
    | unfilled hfilled =>
      unfold entries
      rw [hfilled]
      rfl
    | mapping entries => exact entries_mapping _

theorem exists_integer_iff {value : Plain} :
    (∃ number, value.integer = .ok number) ↔ value.IsIntegral := by
  constructor
  · rintro ⟨number, hnumber⟩
    cases value with
    | bool flag => exact .bool flag
    | int number => exact .int number
    | float number =>
      cases number with
      | finite negative units fits => exact .finite negative units fits
      | infinite negative => cases hnumber
      | nan mark => cases hnumber
    | str shown =>
      refine .numeral ?_
      rw [integer] at hnumber
      split at hnumber
      · simp [*]
      · cases hnumber
    | _ => cases hnumber
  · rintro (flag | number | ⟨negative, units, fits⟩ | hshown)
    · exact ⟨_, rfl⟩
    · exact ⟨_, rfl⟩
    · exact ⟨_, rfl⟩
    · obtain ⟨number, hnumber⟩ := Option.isSome_iff_exists.mp hshown
      exact ⟨number, by rw [integer, hnumber]⟩

theorem exists_pair_iff {position : Nat} {value : Plain} :
    (∃ entry, pair position value = .ok entry) ↔ value.IsPair := by
  constructor
  · rintro ⟨entry, hentry⟩
    unfold pair at hentry
    split at hentry
    · next key content helements =>
      split at hentry
      · next hkey =>
        exact ⟨key, content, lists_of_elements? helements, hkey⟩
      · cases hentry
    · cases hentry
    · cases hentry
  · rintro ⟨key, content, hlists, hkey⟩
    have helements : value.elements? = some [key, content] := by
      generalize hlisted : [key, content] = elements at hlists
      cases hlists with
      | unfilled hfilled => cases hlisted
      | list items => rfl
      | text shown => rfl
      | mapping entries => rfl
    exact ⟨(key, content), by rw [pair, helements]; exact if_pos hkey⟩

theorem exists_pairs_iff {position : Nat} {values : List Plain} :
    (∃ entries, pairs position values = .ok entries) ↔ ∀ value ∈ values, value.IsPair := by
  induction values generalizing position with
  | nil => simp [pairs]
  | cons value rest ih =>
    rw [pairs, exists_both_eq_ok_iff, List.forall_mem_cons, exists_pair_iff, ih]

theorem exists_entriesOrPairs_iff {value : Plain} :
    (∃ fields, value.entriesOrPairs = .ok fields) ↔ value.IsFields := by
  unfold entriesOrPairs
  split
  · next entries => exact iff_of_true ⟨entries, rfl⟩ (.mapping entries)
  · next other hother =>
    rw [exists_bind_eq_ok_iff]
    constructor
    · rintro ⟨elements, hlisting, hentries⟩
      obtain ⟨pairs, hpairs, -⟩ := exists_bind_eq_ok_iff.mp hentries
      exact .pairs (listing_eq_ok_iff.mp hlisting) (exists_pairs_iff.mp ⟨pairs, hpairs⟩)
    · intro hfields
      cases hfields with
      | mapping entries => exact absurd rfl (hother entries)
      | pairs hlists hpairs =>
        obtain ⟨pairs, hpairs⟩ := exists_pairs_iff.mpr hpairs
        refine ⟨_, listing_eq_ok_iff.mpr hlists, ?_⟩
        exact exists_bind_eq_ok_iff.mpr ⟨pairs, hpairs, _, rfl⟩

theorem exists_payload_iff {value : Plain} :
    (∃ numbers, (value.listing >>= fun elements => elements.mapM integer) = .ok numbers) ↔
      value.IsPayload := by
  rw [exists_bind_eq_ok_iff]
  simp only [listing_eq_ok_iff, exists_mapM_eq_ok_iff, exists_integer_iff, IsPayload]

end Plain

namespace ModFile

/-! ## What reading comes to -/

/-- Reading gives a result if what is read fits.  If it does not, what is wrong is that it is
misshapen, or is reported as a fault of the file. -/
inductive ReadAs {Result : Type} (path : Path) (fits misshapen : Prop) : Reading Result → Prop
  | read {result : Result} (hfits : fits) (hshaped : ¬ misshapen) :
    ReadAs path fits misshapen (.ok result)
  | stumbled {fault : ShapeFault} (hfits : ¬ fits) (hmisshapen : misshapen) :
    ReadAs path fits misshapen (.error (.shape fault))
  | reported {fault : ModFileFault} (hfits : ¬ fits) (hshaped : ¬ misshapen) :
    ReadAs path fits misshapen (.error (.modFile path fault))

/-- The first item that does not fit is misshapen. -/
inductive Stumbles {Item : Type} (fits misshapen : Item → Prop) : List Item → Prop
  | here {item : Item} (hmisshapen : misshapen item) (rest : List Item) :
    Stumbles fits misshapen (item :: rest)
  | later {item : Item} {rest : List Item} (hfits : fits item)
    (hrest : Stumbles fits misshapen rest) : Stumbles fits misshapen (item :: rest)

theorem stumbles_cons_iff {Item : Type} {fits misshapen : Item → Prop} {item : Item}
    {rest : List Item} : Stumbles fits misshapen (item :: rest) ↔
      misshapen item ∨ fits item ∧ Stumbles fits misshapen rest := by
  constructor
  · rintro (hmisshapen | ⟨hfits, hrest⟩)
    · exact .inl hmisshapen
    · exact .inr ⟨hfits, hrest⟩
  · rintro (hmisshapen | ⟨hfits, hrest⟩)
    · exact .here hmisshapen rest
    · exact .later hfits hrest

section

variable {Item Result Next : Type} {path : Path} {fits misshapen fitsNext misshapenNext : Prop}
  {outcome : Reading Result} {next : Result → Reading Next}

theorem readAs_pure (path : Path) (result : Result) :
    ReadAs path True False (pure result) :=
  .read trivial id

theorem readAs_shaped {inner : Except ShapeFault Result}
    (hinner : (∃ result, inner = .ok result) ↔ fits) :
    ReadAs path fits (¬ fits) (shaped inner) := by
  cases inner with
  | ok result =>
    have hfits : fits := hinner.mp ⟨result, rfl⟩
    exact .read hfits (not_not_intro hfits)
  | error fault =>
    have hfits : ¬ fits := fun hfits => nomatch hinner.mpr hfits
    exact .stumbled hfits hfits

namespace ReadAs

theorem congr (hread : ReadAs path fits misshapen outcome) (hfits : fits ↔ fitsNext)
    (hmisshapen : misshapen ↔ misshapenNext) : ReadAs path fitsNext misshapenNext outcome :=
  propext hfits ▸ propext hmisshapen ▸ hread

theorem andThen (hread : ReadAs path fits misshapen outcome)
    (hnext : ∀ result, ReadAs path fitsNext misshapenNext (next result)) :
    ReadAs path (fits ∧ fitsNext) (misshapen ∨ fits ∧ misshapenNext) (outcome >>= next) := by
  cases hread with
  | read hfits hshaped =>
    exact (hnext _).congr (and_iff_right hfits).symm (by simp [hfits, hshaped])
  | stumbled hfits hmisshapen => exact .stumbled (fun hboth => hfits hboth.1) (.inl hmisshapen)
  | reported hfits hshaped =>
    exact .reported (fun hboth => hfits hboth.1) (by simp [hfits, hshaped])

/-- Two readings of which neither reports anything. -/
theorem both (hread : ReadAs path fits (¬ fits) outcome)
    (hnext : ∀ result, ReadAs path fitsNext (¬ fitsNext) (next result)) :
    ReadAs path (fits ∧ fitsNext) (¬ (fits ∧ fitsNext)) (outcome >>= next) := by
  refine (hread.andThen hnext).congr Iff.rfl ?_
  by_cases hfits : fits <;> simp [hfits]

/-- What is made of what was read. -/
theorem bind_pure {make : Result → Next} (hread : ReadAs path fits misshapen outcome) :
    ReadAs path fits misshapen (outcome >>= fun result => pure (make result)) := by
  cases hread with
  | read hfits hshaped => exact .read hfits hshaped
  | stumbled hfits hmisshapen => exact .stumbled hfits hmisshapen
  | reported hfits hshaped => exact .reported hfits hshaped

end ReadAs

/-- What is read next depends on what a value is taken for. -/
theorem readAs_shaped_bind {inner : Except ShapeFault Result} {gives : Result → Prop}
    {fits misshapen : Result → Prop} (hinner : ∀ result, inner = .ok result ↔ gives result)
    (hnext : ∀ result, ReadAs path (fits result) (misshapen result) (next result)) :
    ReadAs path (∃ result, gives result ∧ fits result)
      ((∀ result, ¬ gives result) ∨ ∃ result, gives result ∧ misshapen result)
      (shaped inner >>= next) := by
  simp only [← hinner]
  cases inner with
  | ok result => exact (hnext result).congr (by simp) (by simp)
  | error fault => exact .stumbled (by simp) (by simp)

/-- If nothing that is read next is reported, nothing is. -/
theorem readAs_shaped_both {inner : Except ShapeFault Result} {gives : Result → Prop}
    {fits : Result → Prop} (hinner : ∀ result, inner = .ok result ↔ gives result)
    (hnext : ∀ result, ReadAs path (fits result) (¬ fits result) (next result)) :
    ReadAs path (∃ result, gives result ∧ fits result)
      (¬ ∃ result, gives result ∧ fits result) (shaped inner >>= next) := by
  refine (readAs_shaped_bind hinner hnext).congr Iff.rfl ?_
  simp only [← hinner]
  cases inner <;> simp

theorem readAs_mapM {read : Item → Reading Result} {fits misshapen : Item → Prop}
    (hread : ∀ item, ReadAs path (fits item) (misshapen item) (read item)) (items : List Item) :
    ReadAs path (∀ item ∈ items, fits item) (Stumbles fits misshapen items)
      (items.mapM read) := by
  induction items with
  | nil => exact (readAs_pure path []).congr (by simp) (iff_of_false id nofun)
  | cons item rest ih =>
    rw [List.mapM_cons]
    exact ((hread item).andThen fun first => ih.bind_pure).congr List.forall_mem_cons.symm
      stumbles_cons_iff.symm

end

/-! ## Links -/

theorem readAs_readTargets (path : Path) (pairs : List (Plain × Plain)) :
    ReadAs path (∀ entry ∈ pairs, entry.2.IsPayload) (¬ ∀ entry ∈ pairs, entry.2.IsPayload)
      (readTargets pairs) := by
  induction pairs with
  | nil => exact (readAs_pure path []).congr (by simp) (by simp)
  | cons entry rest ih =>
    rw [readTargets, List.forall_mem_cons]
    exact (readAs_shaped Plain.exists_payload_iff).both fun numbers => ih.bind_pure

theorem readAs_readCategories (path : Path) (pairs : List (Plain × Plain)) :
    ReadAs path (∀ entry ∈ pairs, entry.2.IsTargets) (¬ ∀ entry ∈ pairs, entry.2.IsTargets)
      (readCategories pairs) := by
  induction pairs with
  | nil => exact (readAs_pure path []).congr (by simp) (by simp)
  | cons entry rest ih =>
    rw [readCategories, List.forall_mem_cons, ← bind_assoc]
    exact (readAs_shaped_both (fun _ => Plain.entries_eq_ok_iff) (readAs_readTargets path)).both
      fun links => ih.bind_pure

/-! ## Records -/

/-- A mapping that names a record and its type. -/
structure NamesRecord (value : Plain) (entries : Entries Plain Plain) : Prop where
  mapping : value = .mapping entries
  id : (Plain.get? entries "string_id").isSome = true
  kind : (Plain.get? entries "type").isSome = true

/-- The links and the fields of a record have the shape they should have. -/
structure ShapesRecord (entries : Entries Plain Plain) : Prop where
  links : (valueOf entries "extra_data").IsLinks
  fields : (valueOf entries "fields").IsFields

/-- A record can be read. -/
def DescribesRecord (value : Plain) : Prop :=
  ∃ entries, NamesRecord value entries ∧ ShapesRecord entries

/-- A record is named, but its links or its fields cannot be read. -/
def MisshapesRecord (value : Plain) : Prop :=
  ∃ entries, NamesRecord value entries ∧ ¬ ShapesRecord entries

theorem readAs_requiredText (path : Path) (entries : Entries Plain Plain) (key : String) :
    ReadAs path ((Plain.get? entries key).isSome = true) False
      (requiredText path entries key) := by
  rw [requiredText]
  cases Plain.get? entries key with
  | none => exact .reported nofun id
  | some value => exact .read rfl id

theorem readAs_content {Result : Type} (path : Path) (entries : Entries Plain Plain)
    (make : List (String × Entries String (List Int)) → Entries Plain Plain → Result) :
    ReadAs path (ShapesRecord entries) (¬ ShapesRecord entries) (do
      let links ← readCategories (← shaped (valueOf entries "extra_data").entries)
      let fields ← shaped (valueOf entries "fields").entriesOrPairs
      return make links fields) := by
  have hshapes : (valueOf entries "extra_data").IsLinks ∧ (valueOf entries "fields").IsFields ↔
      ShapesRecord entries :=
    ⟨fun hboth => ⟨hboth.1, hboth.2⟩, fun hboth => ⟨hboth.links, hboth.fields⟩⟩
  rw [← bind_assoc, ← hshapes]
  exact (readAs_shaped_both (fun _ => Plain.entries_eq_ok_iff) (readAs_readCategories path)).both
    fun links => (readAs_shaped Plain.exists_entriesOrPairs_iff).bind_pure

theorem readAs_readRecord (path : Path) (value : Plain) :
    ReadAs path (DescribesRecord value) (MisshapesRecord value) (readRecord path value) := by
  cases value with
  | mapping entries =>
    have hnames {content : Entries Plain Plain → Prop} :
        (∃ found, NamesRecord (.mapping entries) found ∧ content found) ↔
          (Plain.get? entries "string_id").isSome = true ∧
            (Plain.get? entries "type").isSome = true ∧ content entries := by
      constructor
      · rintro ⟨_, ⟨⟨⟩, hid, hkind⟩, hcontent⟩
        exact ⟨hid, hkind, hcontent⟩
      · rintro ⟨hid, hkind, hcontent⟩
        exact ⟨entries, ⟨rfl, hid, hkind⟩, hcontent⟩
    refine ((readAs_requiredText path entries "string_id").andThen fun id =>
      (readAs_requiredText path entries "type").andThen fun kind =>
        readAs_content path entries _).congr hnames.symm ?_
    rw [MisshapesRecord, hnames, false_or, false_or]
  | _ =>
    exact .reported (fun ⟨_, hnames, _⟩ => nomatch hnames.mapping)
      fun ⟨_, hnames, _⟩ => nomatch hnames.mapping

/-! ## Whole documents -/

/-- The header of a mod can be gone through. -/
structure ShapesHeader (entries : Entries Plain Plain) : Prop where
  dependencies : ∃ listed, (valueOf entries "dependencies").Lists listed
  references : ∃ listed, (valueOf entries "references").Lists listed

/-- A document that is read as a mod. -/
inductive StatesMod (document : Plain) : Prop
  | mk {entries : Entries Plain Plain} {listed : List Plain} (hmaps : document.Maps entries)
    (hrecords : (valueOf entries "records").Lists listed)
    (hlisted : ∀ value ∈ listed, DescribesRecord value) (hheader : ShapesHeader entries)

/-- What a document states cannot be gone through, and nothing that is read before is
reported. -/
inductive Misshapen (document : Plain) : Prop
  /-- The records cannot be gone through. -/
  | records {entries : Entries Plain Plain} (hmaps : document.Maps entries)
    (hrecords : ∀ listed, ¬ (valueOf entries "records").Lists listed)
  /-- The first record that cannot be read has misshapen links or fields. -/
  | record {entries : Entries Plain Plain} {listed : List Plain}
    (hmaps : document.Maps entries) (hrecords : (valueOf entries "records").Lists listed)
    (hlisted : Stumbles DescribesRecord MisshapesRecord listed)
  /-- Every record can be read, but the header cannot be gone through. -/
  | header {entries : Entries Plain Plain} {listed : List Plain}
    (hmaps : document.Maps entries) (hrecords : (valueOf entries "records").Lists listed)
    (hlisted : ∀ value ∈ listed, DescribesRecord value) (hheader : ¬ ShapesHeader entries)

theorem readAs_header {Result : Type} (path : Path) (entries : Entries Plain Plain)
    (make : List Plain → List Plain → Result) :
    ReadAs path (ShapesHeader entries) (¬ ShapesHeader entries) (do
      let dependencies ← shaped (valueOf entries "dependencies").listing
      let references ← shaped (valueOf entries "references").listing
      return make dependencies references) := by
  have hshapes : (∃ listed, (valueOf entries "dependencies").listing = .ok listed) ∧
      (∃ listed, (valueOf entries "references").listing = .ok listed) ↔
        ShapesHeader entries := by
    simp only [Plain.listing_eq_ok_iff]
    exact ⟨fun hboth => ⟨hboth.1, hboth.2⟩,
      fun hboth => ⟨hboth.dependencies, hboth.references⟩⟩
  rw [← hshapes]
  exact (readAs_shaped Iff.rfl).both fun dependencies => (readAs_shaped Iff.rfl).bind_pure

theorem readAs_ofDocument (path : Path) (asked : Option String) (document : Plain) :
    ReadAs path (StatesMod document) (Misshapen document) (ofDocument path asked document) := by
  rw [ofDocument]
  split
  · next entries hentries =>
    have hmaps : document.Maps entries := by
      split at hentries
      · subst hentries
        exact .mapping entries
      · next hunfilled =>
        cases hentries
        exact .unfilled (by simpa using hunfilled)
    have honly {other : Entries Plain Plain} (hother : document.Maps other) : other = entries := by
      rw [← Plain.entries_eq_ok_iff] at hmaps hother
      exact Except.ok.inj (hother.symm.trans hmaps)
    refine (readAs_shaped_bind (fun _ => Plain.listing_eq_ok_iff) fun listed =>
      (readAs_mapM (readAs_readRecord path) listed).andThen fun records =>
        readAs_header path entries _).congr ⟨?_, ?_⟩ ⟨?_, ?_⟩
    · rintro ⟨listed, hrecords, hlisted, hheader⟩
      exact ⟨hmaps, hrecords, hlisted, hheader⟩
    · rintro ⟨hother, hrecords, hlisted, hheader⟩
      cases honly hother
      exact ⟨_, hrecords, hlisted, hheader⟩
    · rintro (hrecords | ⟨listed, hrecords, hlisted | ⟨hlisted, hheader⟩⟩)
      · exact .records hmaps hrecords
      · exact .record hmaps hrecords hlisted
      · exact .header hmaps hrecords hlisted hheader
    · intro hmisshapen
      cases hmisshapen with
      | records hother hrecords =>
        cases honly hother
        exact .inl hrecords
      | record hother hrecords hlisted =>
        cases honly hother
        exact .inr ⟨_, hrecords, .inl hlisted⟩
      | header hother hrecords hlisted hheader =>
        cases honly hother
        exact .inr ⟨_, hrecords, .inr ⟨hlisted, hheader⟩⟩
  · next other hother =>
    have hnone (entries : Entries Plain Plain) : ¬ document.Maps entries := by
      intro hmaps
      cases hmaps with
      | unfilled hfilled => exact hother [] (by rw [hfilled]; rfl)
      | mapping => exact hother entries (by cases entries <;> rfl)
    refine .reported ?_ ?_
    · rintro ⟨hmaps, -⟩
      exact hnone _ hmaps
    · rintro (⟨hmaps, -⟩ | ⟨hmaps, -⟩ | ⟨hmaps, -⟩)
      all_goals exact hnone _ hmaps

end ModFile

/-! ## Files -/

/-- A fault of the file at a path, which names it. -/
inductive FileFault.IsOfFile (path : Path) : FileFault → Prop
  | modFile (fault : ModFileFault) : IsOfFile path (.modFile path fault)

theorem fst_run_loadFile {workspace : Workspace} {path : Path} {document : Plain}
    (hpath : '\x00' ∉ path.text.toList)
    (hdocument : (workspace.directory.content? path).bind Content.document? = some document)
    (asked : Option String) :
    ((loadFile path asked).run workspace).1 = ModFile.ofDocument path asked document := by
  have hcheck : Job.checkPath path.text = pure () := if_neg (by simpa using hpath)
  obtain ⟨content, hcontent, hheld⟩ := Option.bind_eq_some_iff.mp hdocument
  have hget : (get : Job Workspace).run workspace = (.ok workspace, workspace) := rfl
  rw [loadFile, hcheck, pure_bind, Agree.Computations.run_bind, hget]
  dsimp only
  rw [hcontent, Option.map_some, hheld]
  dsimp only
  cases ModFile.ofDocument path asked document <;> rfl

/-- A file that holds a document is loaded exactly if the document states a mod.  It is loaded,
or reported as the file that is wrong, exactly if what it states is not misshapen. -/
theorem loadFile_loads_or_reports {workspace : Workspace} {path : Path} {document : Plain}
    (hpath : '\x00' ∉ path.text.toList)
    (hdocument : (workspace.directory.content? path).bind Content.document? = some document)
    (asked : Option String) :
    ((∃ file, ((loadFile path asked).run workspace).1 = .ok file) ↔
        ModFile.StatesMod document) ∧
      (Ends (fun _ => True) (FileFault.IsOfFile path) ((loadFile path asked).run workspace).1 ↔
        ¬ ModFile.Misshapen document) := by
  rw [fst_run_loadFile hpath hdocument]
  have hread := ModFile.readAs_ofDocument path asked document
  generalize ModFile.ofDocument path asked document = outcome at hread ⊢
  cases hread with
  | read hfits hshaped =>
    exact ⟨iff_of_true ⟨_, rfl⟩ hfits, iff_of_true (.ok trivial) hshaped⟩
  | stumbled hfits hmisshapen =>
    refine ⟨iff_of_false nofun hfits, iff_of_false ?_ (not_not_intro hmisshapen)⟩
    rintro (_ | ⟨⟨⟩⟩)
  | reported hfits hshaped =>
    exact ⟨iff_of_false nofun hfits, iff_of_true (.error (.modFile _)) hshaped⟩

/-- A document whose records are a number. -/
def numberedRecords : Plain :=
  .mapping [(.str "records", .int 5)]

/-- A document whose only record has a field in two characters and a payload of texts. -/
def tersePolearm : Plain :=
  .mapping [(.str "records", .list [.mapping [
    (.str "string_id", .int 7), (.str "type", .str "AXE"), (.str "fields", .list [.str "ab"]),
    (.str "extra_data", .mapping [(.str "part", .mapping [(.str "9-base", .list [.str "3"])])])]])]

/-- A workspace with one file, which holds a document. -/
def workspaceOf (document : Plain) : Workspace :=
  { directory := { files := [(["small.mod"], .document document)] } }

theorem tersePolearm_loads :
    ModFile.StatesMod tersePolearm ∧ ¬ ModFile.Misshapen tersePolearm := by
  have hpath : '\x00' ∉ (Path.ofText "small.mod").text.toList := by decide
  have hdocument : ((workspaceOf tersePolearm).directory.content? (.ofText "small.mod")).bind
      Content.document? = some tersePolearm := rfl
  obtain ⟨hloads, hreports⟩ := loadFile_loads_or_reports hpath hdocument none
  have hloaded : ∃ file, ((loadFile (.ofText "small.mod") none).run
      (workspaceOf tersePolearm)).1 = .ok file := ⟨_, rfl⟩
  refine ⟨hloads.mp hloaded, hreports.mp ?_⟩
  obtain ⟨file, hfile⟩ := hloaded
  exact hfile ▸ .ok trivial

/-- Records that are a number are not reported as something that is wrong with the file. -/
theorem numberedRecords_not_reported :
    ((loadFile (.ofText "small.mod") none).run (workspaceOf numberedRecords)).1 =
        .error (.shape (.notListed "int")) ∧
      ¬ FileFault.IsOfFile (.ofText "small.mod") (.shape (.notListed "int")) :=
  ⟨rfl, nofun⟩

end Patchwork
