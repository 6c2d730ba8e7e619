import Patchwork.Plain

/-!
# Looking up written entries

What a key leads to after entries have been written.  Equality of keys need not
be an equivalence on keys that no map has, such as mappings as keys, so the
statements are about keys that are sharp: equality cannot confuse them.  All
texts and all scalars are sharp.
-/

namespace Patchwork

namespace Entries

variable {Key Value : Type} [BEq Key]

/-- A key that equality treats well: keys equal to it are equal to each other,
and equal keys are both equal to it or both not. -/
structure Sharp (key : Key) : Prop where
  congr : ∀ left right, (left == right) = true → (left == key) = (right == key)
  join : ∀ left right, (left == key) = true → (right == key) = true →
    (left == right) = true

theorem sharp_of_lawful [LawfulBEq Key] (key : Key) : Sharp key where
  congr left right heq := by
    rw [eq_of_beq heq]
  join left right hleft hright := by
    rw [eq_of_beq hleft, eq_of_beq hright]
    exact beq_self_eq_true key

theorem get?_put_of_sharp {other : Key} (hsharp : Sharp other)
    (entries : Entries Key Value) (key : Key) (value : Value) :
    get? (put entries key value) other =
      if key == other then some value else get? entries other := by
  induction entries with
  | nil => rfl
  | cons head rest ih =>
    obtain ⟨here, old⟩ := head
    by_cases hhere : (here == key) = true
    · have hcongr : (here == other) = (key == other) := hsharp.congr here key hhere
      simp only [put, hhere, if_true, get?, hcongr]
      split <;> rfl
    · by_cases hother : (here == other) = true
      · have hkey : ¬ (key == other) = true := fun hkey =>
          hhere (hsharp.join here key hother hkey)
        simp [put, get?, hhere, hother, hkey]
      · simp [put, get?, hhere, hother, ih]

/-! ## Maps -/

/-- No key stands in the entries twice. -/
def Distinct (entries : Entries Key Value) : Prop :=
  entries.Pairwise fun left right => (left.1 == right.1) = false

instance (entries : Entries Key Value) : Decidable (Distinct entries) :=
  inferInstanceAs (Decidable (entries.Pairwise _))

theorem get?_eq_none_of_distinct {key here : Key} {value : Value}
    {rest : Entries Key Value} (hsharp : Sharp key)
    (hdistinct : Distinct ((here, value) :: rest)) (hhere : (here == key) = true) :
    get? rest key = none := by
  have hhead := (List.pairwise_cons.mp hdistinct).1
  clear hdistinct
  induction rest with
  | nil => rfl
  | cons next rest ih =>
    obtain ⟨other, old⟩ := next
    have hne : ¬ (other == key) = true := by
      intro hother
      have hfalse := hhead (other, old) List.mem_cons_self
      rw [hsharp.join here other hhere hother] at hfalse
      cases hfalse
    simp only [get?, hne]
    exact ih fun entry hentry => hhead entry (List.mem_cons_of_mem _ hentry)

theorem get?_putAll {key : Key} (hsharp : Sharp key) (entries : Entries Key Value)
    {changes : Entries Key Value} (hdistinct : Distinct changes) :
    get? (putAll entries changes) key = (get? changes key).or (get? entries key) := by
  induction changes generalizing entries with
  | nil => simp [putAll]
  | cons change rest ih =>
    obtain ⟨here, value⟩ := change
    have hrest : Distinct rest := hdistinct.tail
    have hstep : putAll entries ((here, value) :: rest) =
        putAll (put entries here value) rest := rfl
    rw [hstep, ih _ hrest, get?_put_of_sharp hsharp]
    by_cases hhere : (here == key) = true
    · simp [get?, hhere, get?_eq_none_of_distinct hsharp hdistinct hhere]
    · simp [get?, hhere]

theorem mem_of_get? {entries : Entries Key Value} {key : Key} {value : Value}
    (hget : get? entries key = some value) : ∃ here, (here, value) ∈ entries := by
  induction entries with
  | nil => cases hget
  | cons head rest ih =>
    obtain ⟨here, old⟩ := head
    simp only [get?] at hget
    split at hget
    · cases hget
      exact ⟨here, List.mem_cons_self⟩
    · obtain ⟨other, hmem⟩ := ih hget
      exact ⟨other, List.mem_cons_of_mem _ hmem⟩

theorem mem_of_get?_self [LawfulBEq Key] {entries : Entries Key Value} {key : Key} {value : Value}
    (hget : get? entries key = some value) : (key, value) ∈ entries := by
  induction entries with
  | nil => cases hget
  | cons head rest ih =>
    obtain ⟨here, old⟩ := head
    simp only [get?] at hget
    split at hget
    · rename_i hhere
      cases hget
      rw [eq_of_beq hhere]
      exact List.mem_cons_self
    · exact List.mem_cons_of_mem _ (ih hget)

theorem has_of_mem [ReflBEq Key] {entries : Entries Key Value} {entry : Key × Value}
    (hmem : entry ∈ entries) : has entries entry.1 = true := by
  induction entries with
  | nil => cases hmem
  | cons head rest ih =>
    rw [has, get?]
    split
    · rfl
    · rename_i hne
      obtain rfl | hrest := List.mem_cons.mp hmem
      · exact absurd BEq.rfl hne
      · exact ih hrest

theorem mem_put {entries : Entries Key Value} {key : Key} {value : Value}
    {entry : Key × Value} (hmem : entry ∈ put entries key value) :
    entry ∈ entries ∨ entry.2 = value := by
  induction entries with
  | nil =>
    right
    rw [List.mem_singleton.mp hmem]
  | cons head rest ih =>
    obtain ⟨here, old⟩ := head
    simp only [put] at hmem
    split at hmem
    · obtain rfl | hrest := List.mem_cons.mp hmem
      · exact Or.inr rfl
      · exact Or.inl (List.mem_cons_of_mem _ hrest)
    · obtain rfl | hrest := List.mem_cons.mp hmem
      · exact Or.inl List.mem_cons_self
      · exact (ih hrest).imp_left (List.mem_cons_of_mem _)

/-- What an entry becomes when a key is given a value. -/
theorem getElem?_put {entries : Entries Key Value} {position : Nat} {entry : Key × Value}
    (hentry : entries[position]? = some entry) (key : Key) (value : Value) :
    (put entries key value)[position]? = some entry ∨
      (put entries key value)[position]? = some (entry.1, value) ∧ (entry.1 == key) = true ∧
        get? entries key = some entry.2 := by
  induction entries generalizing position with
  | nil => cases hentry
  | cons head rest ih =>
    obtain ⟨here, old⟩ := head
    by_cases hhere : (here == key) = true
    · cases position with
      | zero =>
        cases hentry
        exact Or.inr ⟨by simp [put, hhere], hhere, by simp [get?, hhere]⟩
      | succ position => exact Or.inl (by simpa [put, hhere] using hentry)
    · cases position with
      | zero =>
        cases hentry
        exact Or.inl (by simp [put, hhere])
      | succ position =>
        simpa [put, get?, hhere] using ih (by simpa using hentry)

theorem has_eq_any_keys (entries : Entries Key Value) (key : Key) :
    has entries key = (entries.map Prod.fst).any (· == key) := by
  induction entries with
  | nil => rfl
  | cons head rest ih =>
    obtain ⟨here, old⟩ := head
    by_cases hhere : (here == key) = true
    · simp [has, get?, hhere]
    · simpa [has, get?, hhere] using ih

theorem fst_mem_put {entries : Entries Key Value} {key : Key} {value : Value}
    {entry : Key × Value} (hmem : entry ∈ put entries key value) :
    entry.1 ∈ entries.map Prod.fst ∨ entry.1 = key := by
  have hkey : entry.1 ∈ (put entries key value).map Prod.fst :=
    List.mem_map_of_mem hmem
  rw [keys_put] at hkey
  split at hkey
  · exact Or.inl hkey
  · simpa using hkey

theorem distinct_put {entries : Entries Key Value} (hdistinct : Distinct entries)
    (key : Key) (value : Value) : Distinct (put entries key value) := by
  induction entries with
  | nil => exact List.pairwise_singleton _ _
  | cons head rest ih =>
    obtain ⟨here, old⟩ := head
    obtain ⟨hhead, hrest⟩ := List.pairwise_cons.mp hdistinct
    by_cases hhere : (here == key) = true
    · simp only [put, hhere, if_true]
      exact List.pairwise_cons.mpr ⟨hhead, hrest⟩
    · simp only [put, hhere]
      refine List.pairwise_cons.mpr ⟨fun entry hentry => ?_, ih hrest⟩
      obtain hold | hnew := fst_mem_put hentry
      · obtain ⟨other, hother, heq⟩ := List.mem_map.mp hold
        rw [← heq]
        exact hhead other hother
      · rw [hnew]
        simpa using hhere

theorem put_of_get?_eq_none
    {entries : Entries Key Value} {key : Key} (hnone : get? entries key = none)
    (value : Value) : put entries key value = entries ++ [(key, value)] := by
  induction entries with
  | nil => rfl
  | cons head rest ih =>
    obtain ⟨here, old⟩ := head
    by_cases hhere : (here == key) = true
    · simp [get?, hhere] at hnone
    · simp only [get?, hhere] at hnone
      simp [put, hhere, ih hnone]

theorem put_append_of_get?_eq_none [ReflBEq Key]
    {entries : Entries Key Value} {key : Key} (hnone : get? entries key = none)
    (old value : Value) : put (entries ++ [(key, old)]) key value = entries ++ [(key, value)] := by
  induction entries with
  | nil => simp [put]
  | cons head rest ih =>
    obtain ⟨here, other⟩ := head
    by_cases hhere : (here == key) = true
    · simp [get?, hhere] at hnone
    · simp only [get?, hhere] at hnone
      simp [put, hhere, ih hnone]

theorem get?_eq_none_of_forall {entries : Entries Key Value} {key : Key}
    (hother : ∀ entry ∈ entries, (entry.1 == key) = false) : get? entries key = none := by
  induction entries with
  | nil => rfl
  | cons head rest ih =>
    obtain ⟨here, old⟩ := head
    rw [get?, if_neg (by simp [hother (here, old) List.mem_cons_self])]
    exact ih fun entry hentry => hother entry (List.mem_cons_of_mem _ hentry)

/-- Entries that are all new are written behind the others. -/
theorem putAll_of_distinct {entries changes : Entries Key Value}
    (hdistinct : Distinct (entries ++ changes)) : putAll entries changes = entries ++ changes := by
  induction changes generalizing entries with
  | nil => simp [putAll]
  | cons change rest ih =>
    obtain ⟨key, value⟩ := change
    have hstep : putAll entries ((key, value) :: rest) = putAll (put entries key value) rest := rfl
    have hnew : ∀ entry ∈ entries, (entry.1 == key) = false := fun entry hentry =>
      (List.pairwise_append.mp hdistinct).2.2 entry hentry (key, value) List.mem_cons_self
    rw [hstep, put_of_get?_eq_none (get?_eq_none_of_forall hnew), ih, List.append_assoc]
    · rfl
    · rw [List.append_assoc]
      exact hdistinct

theorem ofPairs_of_distinct {entries : Entries Key Value} (hdistinct : Distinct entries) :
    ofPairs entries = entries :=
  putAll_of_distinct hdistinct

theorem distinct_putAll {entries : Entries Key Value} (hdistinct : Distinct entries)
    (changes : Entries Key Value) : Distinct (putAll entries changes) := by
  induction changes generalizing entries with
  | nil => exact hdistinct
  | cons change rest ih => exact ih (distinct_put hdistinct _ _)

theorem distinct_ofPairs (pairs : List (Key × Value)) : Distinct (ofPairs pairs) :=
  distinct_putAll List.Pairwise.nil pairs

theorem mem_putAll {entries changes : Entries Key Value} {entry : Key × Value}
    (hmem : entry ∈ putAll entries changes) :
    entry ∈ entries ∨ ∃ change ∈ changes, entry.2 = change.2 := by
  induction changes generalizing entries with
  | nil => exact Or.inl hmem
  | cons change rest ih =>
    rcases ih hmem with hwritten | ⟨other, hother, hvalue⟩
    · refine (mem_put hwritten).imp_right fun hvalue => ?_
      exact ⟨change, List.mem_cons_self, hvalue⟩
    · exact Or.inr ⟨other, List.mem_cons_of_mem _ hother, hvalue⟩

theorem remove_sublist (entries : Entries Key Value) (key : Key) :
    (remove entries key).Sublist entries := by
  induction entries with
  | nil => exact List.Sublist.refl []
  | cons head rest ih =>
    obtain ⟨here, value⟩ := head
    rw [remove]
    split
    · exact List.sublist_cons_self _ _
    · exact ih.cons_cons _

/-- Writing a key into a table of values over distinct keys. -/
theorem put_map [LawfulBEq Key] {keys : List Key} (hnodup : keys.Nodup)
    (values : Key → Value) (key : Key) (value : Value) :
    put (keys.map fun here => (here, values here)) key value =
      if key ∈ keys then
        keys.map fun here => (here, if here == key then value else values here)
      else (keys.map fun here => (here, values here)) ++ [(key, value)] := by
  induction keys with
  | nil => rfl
  | cons here rest ih =>
    obtain ⟨hnotin, hrest⟩ := List.nodup_cons.mp hnodup
    by_cases hhere : here = key
    · subst hhere
      have hsame : (rest.map fun other => (other, if other == here then value else values other)) =
          rest.map fun other => (other, values other) := by
        apply List.map_congr_left
        intro other hother
        have hne : other ≠ here := fun heq => hnotin (heq ▸ hother)
        simp [hne]
      simp [put, hsame]
    · have hne : key ≠ here := Ne.symm hhere
      by_cases hmem : key ∈ rest
      · simp [put, ih hrest, hhere, hmem]
      · simp [put, ih hrest, hhere, hne, hmem]

theorem get?_map [LawfulBEq Key] (keys : List Key) (values : Key → Value) (key : Key) :
    get? (keys.map fun here => (here, values here)) key =
      if key ∈ keys then some (values key) else none := by
  induction keys with
  | nil => rfl
  | cons here rest ih =>
    by_cases hhere : here = key
    · simp [get?, hhere]
    · have hne : key ≠ here := Ne.symm hhere
      simp [get?, ih, hhere, hne]

end Entries

namespace Plain

/-- A value that maps may have as a key. -/
def IsKey (key : Plain) : Prop :=
  key.scalar?.isSome = true

/-- Values of which one is a scalar are equal if both are the same scalar. -/
theorem same_of_scalar {left right : Plain}
    (hscalar : left.scalar?.isSome ∨ right.scalar?.isSome) :
    same left right = (left.scalar? == right.scalar?) := by
  unfold same
  split
  · rcases hscalar with hleft | hright
    · cases hleft
    · cases hright
  · rcases hscalar with hleft | hright
    · cases hleft
    · cases hright
  · split
    · rename_i hleft hright
      rw [hleft, hright]
      rfl
    · rename_i hnotboth
      cases hleft : left.scalar? with
      | none =>
        cases hright : right.scalar? with
        | none => simp [hleft, hright] at hscalar
        | some scalar => rfl
      | some first =>
        cases hright : right.scalar? with
        | none => rfl
        | some second => exact absurd hright (hnotboth first second hleft)

theorem beq_of_scalar? {key : Plain} {scalar : Scalar} (hscalar : key.scalar? = some scalar)
    (value : Plain) : (value == key) = decide (value.scalar? = some scalar) := by
  have hsome : key.scalar?.isSome := by
    rw [hscalar]
    rfl
  change same value key = _
  rw [same_of_scalar (Or.inr hsome), hscalar, Bool.eq_iff_iff, beq_iff_eq, decide_eq_true_iff]

theorem scalar?_eq_of_beq {left right : Plain} (heq : (left == right) = true) :
    left.scalar? = right.scalar? := by
  cases hright : right.scalar? with
  | some scalar => simpa [beq_of_scalar? hright] using heq
  | none =>
    change same left right = true at heq
    cases hleft : left.scalar? with
    | none => rfl
    | some scalar =>
      have hsome : left.scalar?.isSome := by
        rw [hleft]
        rfl
      rw [same_of_scalar (Or.inl hsome), hleft, hright] at heq
      cases heq

/-- Equality tells the keys of maps apart. -/
theorem IsKey.sharp {key : Plain} (hkey : key.IsKey) : Entries.Sharp key := by
  obtain ⟨scalar, hscalar⟩ := Option.isSome_iff_exists.mp hkey
  constructor
  · intro left right heq
    rw [beq_of_scalar? hscalar, beq_of_scalar? hscalar, scalar?_eq_of_beq heq]
  · intro left right hleft hright
    rw [beq_of_scalar? hscalar, decide_eq_true_iff] at hleft hright
    rw [beq_of_scalar? hright, decide_eq_true_iff]
    exact hleft

theorem isKey_str (text : String) : (Plain.str text).IsKey := rfl

theorem scalar?_eq_text_iff {text : String} {value : Plain} :
    value.scalar? = some (.text text) ↔ value = .str text := by
  cases value with
  | float number =>
    rw [scalar?]
    split <;> simp
  | _ => simp [scalar?]

theorem str_beq_iff {text : String} {value : Plain} :
    (Plain.str text == value) = true ↔ value = .str text := by
  change same (.str text) value = true ↔ _
  rw [same_of_scalar (Or.inl rfl), beq_iff_eq, eq_comm, scalar?, scalar?_eq_text_iff]

theorem beq_str_iff {text : String} {value : Plain} :
    (value == Plain.str text) = true ↔ value = .str text := by
  change same value (.str text) = true ↔ _
  rw [same_of_scalar (Or.inr rfl), beq_iff_eq, scalar?, scalar?_eq_text_iff]

end Plain

end Patchwork
