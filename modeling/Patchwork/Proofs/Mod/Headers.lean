import Patchwork.Mod

/-!
# Headers

The dependencies and the references of a mod.  Adding an entry keeps a header proper,
and a proper header is what adding its entries one after the other gives.
-/

namespace Patchwork

/-- A header that names nothing twice and never the mod itself. -/
structure ProperHeader (name : Plain) (header : List Plain) : Prop where
  distinct : header.Pairwise fun earlier later => (later == earlier) = false
  foreign : ∀ entry ∈ header, name.equals entry = false

namespace ProperHeader

theorem nil (name : Plain) : ProperHeader name [] :=
  ⟨List.Pairwise.nil, fun _ hentry => nomatch hentry⟩

theorem addHeaderEntry {name : Plain} {header : List Plain} (hheader : ProperHeader name header)
    (entry : Plain) : ProperHeader name (Mod.addHeaderEntry name header entry) := by
  rw [Mod.addHeaderEntry]
  split
  · exact hheader
  · next hnew =>
    simp only [Bool.or_eq_true, not_or, Bool.not_eq_true] at hnew
    refine ⟨List.pairwise_append.mpr ⟨hheader.distinct, List.pairwise_singleton _ _, ?_⟩, ?_⟩
    · intro earlier hearlier later hlater
      rw [List.mem_singleton.mp hlater, Bool.eq_false_iff]
      intro hsame
      have hcontains := List.contains_iff_exists_mem_beq.mpr ⟨earlier, hearlier, hsame⟩
      rw [hnew.2] at hcontains
      cases hcontains
    · intro other hother
      rcases List.mem_append.mp hother with hother | hother
      · exact hheader.foreign other hother
      · exact List.mem_singleton.mp hother ▸ hnew.1

theorem foldl {name : Plain} {header : List Plain} (hheader : ProperHeader name header)
    (entries : List Plain) :
    ProperHeader name (entries.foldl (Mod.addHeaderEntry name) header) := by
  induction entries generalizing header with
  | nil => exact hheader
  | cons entry rest ih => exact ih (hheader.addHeaderEntry entry)

theorem not_contains {name entry : Plain} {front rest : List Plain}
    (hheader : ProperHeader name (front ++ entry :: rest)) : front.contains entry = false := by
  rw [Bool.eq_false_iff]
  intro hcontains
  obtain ⟨earlier, hearlier, hsame⟩ := List.contains_iff_exists_mem_beq.mp hcontains
  have hdistinct := (List.pairwise_append.mp hheader.distinct).2.2 earlier hearlier entry
    List.mem_cons_self
  rw [hdistinct] at hsame
  cases hsame

/-- Entries that make a proper header with those before are all kept, in their order. -/
theorem foldl_eq_append {name : Plain} {header entries : List Plain}
    (hheader : ProperHeader name (header ++ entries)) :
    entries.foldl (Mod.addHeaderEntry name) header = header ++ entries := by
  induction entries generalizing header with
  | nil => simp
  | cons entry rest ih =>
    have hforeign := hheader.foreign entry (by simp)
    rw [List.foldl_cons, Mod.addHeaderEntry, hforeign, hheader.not_contains, Bool.or_false,
      if_neg Bool.false_ne_true, ih (by simpa using hheader), List.append_assoc]
    rfl

theorem foldl_nil {name : Plain} {entries : List Plain} (hheader : ProperHeader name entries) :
    entries.foldl (Mod.addHeaderEntry name) [] = entries := by
  rw [← List.nil_append entries] at hheader
  exact hheader.foldl_eq_append

end ProperHeader

end Patchwork
