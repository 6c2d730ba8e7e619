/-!
# Steps that give a result or a fault

What a chain of steps gives, each of which may fail.
-/

namespace Patchwork

variable {Trouble Item Result Next : Type}

theorem exists_of_bind_eq_ok {first : Except Trouble Result}
    {next : Result → Except Trouble Next} {result : Next} (hbind : (first >>= next) = .ok result) :
    ∃ given, first = .ok given ∧ next given = .ok result := by
  cases first with
  | error fault => cases hbind
  | ok given => exact ⟨given, rfl, hbind⟩

theorem exists_of_map_eq_ok {outcome : Except Trouble Result} {change : Result → Next} {next : Next}
    (hmap : outcome.map change = .ok next) :
    ∃ result, outcome = .ok result ∧ change result = next := by
  cases outcome with
  | error fault => cases hmap
  | ok result =>
    cases hmap
    exact ⟨result, rfl, rfl⟩

theorem eq_ok_of_toOption {outcome : Except Trouble Result} {result : Result}
    (houtcome : outcome.toOption = some result) : outcome = .ok result := by
  cases outcome with
  | error fault => cases houtcome
  | ok given => exact congrArg Except.ok (Option.some.inj houtcome)

theorem exists_of_isOk {outcome : Except Trouble Result} (houtcome : outcome.isOk = true) :
    ∃ result, outcome = .ok result := by
  cases outcome with
  | error fault => cases houtcome
  | ok result => exact ⟨result, rfl⟩

theorem exists_of_mapM_eq_ok {read : Item → Except Trouble Result} {items : List Item}
    {results : List Result} (hread : items.mapM read = .ok results) :
    ∀ result ∈ results, ∃ item ∈ items, read item = .ok result := by
  induction items generalizing results with
  | nil =>
    cases hread
    exact nofun
  | cons item rest ih =>
    rw [List.mapM_cons] at hread
    obtain ⟨first, hfirst, hread⟩ := exists_of_bind_eq_ok hread
    obtain ⟨others, hothers, hread⟩ := exists_of_bind_eq_ok hread
    cases hread
    rintro result (_ | ⟨_, hresult⟩)
    · exact ⟨item, List.mem_cons_self, hfirst⟩
    · obtain ⟨other, hother, hgiven⟩ := ih hothers result hresult
      exact ⟨other, List.mem_cons_of_mem _ hother, hgiven⟩

theorem exists_bind_eq_ok_iff {first : Except Trouble Result}
    {next : Result → Except Trouble Next} :
    (∃ result, (first >>= next) = .ok result) ↔
      ∃ given, first = .ok given ∧ ∃ result, next given = .ok result := by
  cases first with
  | error fault => exact iff_of_false nofun nofun
  | ok given => exact ⟨fun hnext => ⟨given, rfl, hnext⟩, fun ⟨_, rfl, hnext⟩ => hnext⟩

theorem exists_both_eq_ok_iff {Other : Type} {first : Except Trouble Result}
    {second : Except Trouble Other} {make : Result → Other → Next} :
    (∃ result, (first >>= fun given => second >>= fun other => pure (make given other)) =
        .ok result) ↔
      (∃ given, first = .ok given) ∧ ∃ other, second = .ok other := by
  constructor
  · rintro ⟨result, hresult⟩
    obtain ⟨given, hgiven, hresult⟩ := exists_of_bind_eq_ok hresult
    obtain ⟨other, hother, -⟩ := exists_of_bind_eq_ok hresult
    exact ⟨⟨given, hgiven⟩, other, hother⟩
  · rintro ⟨⟨given, rfl⟩, other, rfl⟩
    exact ⟨make given other, rfl⟩

theorem exists_mapM_eq_ok_iff {read : Item → Except Trouble Result} {items : List Item} :
    (∃ results, items.mapM read = .ok results) ↔
      ∀ item ∈ items, ∃ result, read item = .ok result := by
  induction items with
  | nil => exact iff_of_true ⟨[], rfl⟩ nofun
  | cons item rest ih => rw [List.mapM_cons, exists_both_eq_ok_iff, List.forall_mem_cons, ih]

theorem mapM_map_eq_ok {Source : Type} {read : Item → Except Trouble Result}
    {write : Source → Item} {expected : Source → Result} {sources : List Source}
    (hread : ∀ source ∈ sources, read (write source) = .ok (expected source)) :
    (sources.map write).mapM read = .ok (sources.map expected) := by
  induction sources with
  | nil => rfl
  | cons source rest ih =>
    rw [List.map_cons, List.mapM_cons, hread source List.mem_cons_self,
      ih fun other hother => hread other (List.mem_cons_of_mem _ hother)]
    rfl

/-! ## What a step ends in -/

/-- A step gives a result with one property or fails with a fault with another one. -/
inductive Ends (gives : Result → Prop) (fails : Trouble → Prop) : Except Trouble Result → Prop
  | ok {result : Result} (hresult : gives result) : Ends gives fails (.ok result)
  | error {fault : Trouble} (hfault : fails fault) : Ends gives fails (.error fault)

section

variable {gives : Result → Prop} {givesNext : Next → Prop} {fails : Trouble → Prop}
  {outcome : Except Trouble Result}

theorem Ends.bind {next : Result → Except Trouble Next} (hfirst : Ends gives fails outcome)
    (hnext : ∀ result, gives result → Ends givesNext fails (next result)) :
    Ends givesNext fails (outcome >>= next) := by
  cases hfirst with
  | ok hresult => exact hnext _ hresult
  | error hfault => exact .error hfault

/-- A step whose result has no property that the rest depends on. -/
theorem Ends.andThen {next : Result → Except Trouble Next} (hfirst : Ends gives fails outcome)
    (hnext : ∀ result, Ends givesNext fails (next result)) :
    Ends givesNext fails (outcome >>= next) :=
  hfirst.bind fun result _ => hnext result

theorem Ends.map {make : Result → Next} (hends : Ends gives fails outcome)
    (hmake : ∀ result, gives result → givesNext (make result)) :
    Ends givesNext fails (outcome.map make) := by
  cases hends with
  | ok hresult => exact .ok (hmake _ hresult)
  | error hfault => exact .error hfault

theorem Ends.mono {givesWeaker : Result → Prop} {failsWeaker : Trouble → Prop}
    (hends : Ends gives fails outcome) (hresult : ∀ result, gives result → givesWeaker result)
    (hfault : ∀ fault, fails fault → failsWeaker fault) :
    Ends givesWeaker failsWeaker outcome := by
  cases hends with
  | ok hgives => exact .ok (hresult _ hgives)
  | error hfails => exact .error (hfault _ hfails)

end

/-! ## Steps compared by their results -/

theorem toOption_bind (outcome : Except Trouble Result) (next : Result → Except Trouble Next) :
    (outcome >>= next).toOption = outcome.toOption >>= fun result => (next result).toOption := by
  cases outcome <;> rfl

theorem toOption_mapM_congr {first second : Item → Except Trouble Result}
    (hsame : ∀ item, (first item).toOption = (second item).toOption) (items : List Item) :
    (items.mapM first).toOption = (items.mapM second).toOption := by
  induction items with
  | nil => rfl
  | cons item rest ih =>
    rw [List.mapM_cons, List.mapM_cons, toOption_bind, toOption_bind, hsame item]
    refine Option.bind_congr fun result _ => ?_
    rw [toOption_bind, toOption_bind, ih]

end Patchwork
