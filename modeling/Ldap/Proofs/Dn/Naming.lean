import Ldap.Proofs.Dn.Split
import Mathlib.Data.List.TakeDrop

/-! The attribute values that a name begins with. A relative name has values just if there is an equals sign in it,
and blanks around it do not matter. When names are put together from relative names, the first one keeps its values,
unless it ends within quotes or with a backslash. -/

namespace Ldap.Dn

open Text (ne_of_isBlank trimChars_cons trimChars_concat)

/-- The attribute values that the first relative name of a name is made of. -/
def naming (dn : String) : List NameValue := ((split dn).head?.map components).getD []

theorem split_ne_nil_of_naming {dn : String} (h : naming dn ≠ []) : split dn ≠ [] := by
  intro hs
  simp [naming, hs] at h

/-! ### Equals signs -/

theorem exists_mem_consFirst {a c : Char} {pieces : List (List Char)} :
    (∃ piece ∈ consFirst a pieces, c ∈ piece) ↔ c = a ∨ ∃ piece ∈ pieces, c ∈ piece := by
  cases pieces with
  | nil => simp [consFirst]
  | cons first rest => simp [consFirst, or_assoc]

/-- Cutting drops separators alone. -/
theorem exists_mem_cut {sep : Char → Bool} {quotes escaped quoted : Bool} {c : Char} {cs : List Char}
    (hc : sep c = false) : (∃ piece ∈ cut sep quotes escaped quoted cs, c ∈ piece) ↔ c ∈ cs := by
  fun_induction cut sep quotes escaped quoted cs with
  | case1 => simp
  | case2 quoted x cs ih => rw [exists_mem_consFirst, ih, List.mem_cons]
  | case3 quoted cs ih => rw [exists_mem_consFirst, ih, List.mem_cons]
  | case4 quoted x cs _ _ ih => rw [exists_mem_consFirst, ih, List.mem_cons]
  | case5 quoted x cs _ _ hs ih =>
    have hne : c ≠ x := by
      rintro rfl
      simp [hc] at hs
    simpa [hne] using ih
  | case6 quoted x cs _ _ _ ih => rw [exists_mem_consFirst, ih, List.mem_cons]

/-- A component is read off its first equals sign. -/
theorem readComponent?_append {name value : List Char} (h : '=' ∉ name) :
    readComponent? (name ++ '=' :: value) = some ⟨String.ofList (Text.trimChars name),
      String.ofList (unescape (unquote (Text.trimChars value)))⟩ := by
  have hname : ∀ c ∈ name, (c != '=') = true := fun c hc => bne_iff_ne.mpr fun he => h (he ▸ hc)
  rw [readComponent?, List.span_eq_takeWhile_dropWhile, List.takeWhile_append_of_pos hname,
    List.dropWhile_append_of_pos hname]
  simp

theorem readComponent?_of_not_mem {piece : List Char} (h : '=' ∉ piece) : readComponent? piece = none := by
  have hdrop : piece.dropWhile (· != '=') = [] :=
    List.dropWhile_eq_nil_iff.mpr fun c hc => bne_iff_ne.mpr fun he => h (he ▸ hc)
  rw [readComponent?, List.span_eq_takeWhile_dropWhile, hdrop]

theorem readComponent?_eq_none_iff {piece : List Char} : readComponent? piece = none ↔ '=' ∉ piece := by
  refine ⟨fun h hm => ?_, readComponent?_of_not_mem⟩
  obtain ⟨name, value, rfl, hname⟩ := List.eq_append_cons_of_mem hm
  simp [readComponent?_append hname] at h

theorem components_eq_nil_iff {rdn : String} : components rdn = [] ↔ '=' ∉ rdn.toList := by
  have hcut : (∃ piece ∈ cut (· == '+') false false false rdn.toList, '=' ∈ piece) ↔ '=' ∈ rdn.toList :=
    exists_mem_cut (by decide)
  rw [components, List.filterMap_eq_nil_iff, ← hcut]
  simp only [readComponent?_eq_none_iff, not_exists, not_and]

theorem exists_mem_split {c : Char} {dn : String} (hb : Text.isBlank c = false) (hs : isSeparator c = false)
    (h : c ∈ dn.toList) : ∃ rdn ∈ split dn, c ∈ rdn.toList := by
  obtain ⟨piece, hp, hin⟩ : ∃ piece ∈ cutFrom {} dn.toList, c ∈ piece := (exists_mem_cut hs).mpr h
  have htrim : c ∈ Text.trimChars piece := (Text.mem_trimChars hb).mpr hin
  have hmem : Text.trimChars piece ∈ (cutFrom {} dn.toList).map Text.trimChars := List.mem_map_of_mem hp
  rw [split_eq, if_neg]
  · exact ⟨_, List.mem_map_of_mem hmem, by simpa using htrim⟩
  · intro hblank
    rw [hblank, List.mem_singleton] at hmem
    simp [hmem] at htrim

/-- The key of a name with an equals sign has one too. -/
theorem eq_mem_normalize {dn : String} (h : '=' ∈ dn.toList) : '=' ∈ (normalize dn).toList := by
  obtain ⟨rdn, hr, hin⟩ := exists_mem_split (by decide) (by decide) h
  have hne : components rdn ≠ [] := mt components_eq_nil_iff.mp (not_not.mpr hin)
  rw [normalize, String.toList_intercalate]
  exact mem_intercalate_of_mem (List.mem_map_of_mem (List.mem_map_of_mem hr)) (eq_mem_normalizeRdn hne)

theorem normalize_ne_empty_of_eq_mem {dn : String} (h : '=' ∈ dn.toList) : normalize dn ≠ "" := by
  intro hk
  have hmem : '=' ∈ (normalize dn).toList := eq_mem_normalize h
  simp [hk] at hmem

theorem exists_mem_of_mem_split {c : Char} {dn rdn : String} (hs : isSeparator c = false) (hr : rdn ∈ split dn)
    (h : c ∈ rdn.toList) : c ∈ dn.toList := by
  rw [split_eq] at hr
  split at hr
  · cases hr
  · obtain ⟨_, hmem, rfl⟩ := List.mem_map.mp hr
    obtain ⟨piece, hp, rfl⟩ := List.mem_map.mp hmem
    exact (exists_mem_cut hs).mp ⟨piece, hp, Text.mem_of_mem_trimChars (by simpa using h)⟩

theorem eq_mem_of_naming {dn : String} (h : naming dn ≠ []) : '=' ∈ dn.toList := by
  unfold naming at h
  cases hs : split dn with
  | nil => simp [hs] at h
  | cons rdn rest =>
    have hin : '=' ∈ rdn.toList := by
      by_contra hnot
      exact h (by simpa [hs] using components_eq_nil_iff.mpr hnot)
    exact exists_mem_of_mem_split (by decide) (hs ▸ List.mem_cons_self) hin

/-! ### Blanks around a relative name -/

section Blanks

variable {b : Char} (hb : Text.isBlank b = true)
include hb

theorem readComponent?_cons (piece : List Char) : readComponent? (b :: piece) = readComponent? piece := by
  have hne : '=' ≠ b := ne_of_isBlank hb (by decide)
  by_cases hm : '=' ∈ piece
  · obtain ⟨name, value, rfl, hname⟩ := List.eq_append_cons_of_mem hm
    rw [← List.cons_append, readComponent?_append (by simp [hne, hname]), readComponent?_append hname,
      trimChars_cons hb]
  · rw [readComponent?_of_not_mem hm, readComponent?_of_not_mem (by simp [hne, hm])]

theorem readComponent?_concat (piece : List Char) : readComponent? (piece ++ [b]) = readComponent? piece := by
  have hne : '=' ≠ b := ne_of_isBlank hb (by decide)
  by_cases hm : '=' ∈ piece
  · obtain ⟨name, value, rfl, hname⟩ := List.eq_append_cons_of_mem hm
    rw [List.append_assoc, List.cons_append, readComponent?_append hname, readComponent?_append hname,
      trimChars_concat hb]
  · rw [readComponent?_of_not_mem hm, readComponent?_of_not_mem (by simp [hne, hm])]

/-- The pieces between plus signs. -/
def summands (escaped quoted : Bool) (cs : List Char) : List (List Char) := cut (· == '+') false escaped quoted cs

theorem summands_cons (quoted : Bool) (cs : List Char) :
    summands false quoted (b :: cs) = consFirst b (summands false quoted cs) := by
  have hbackslash : b ≠ '\\' := (ne_of_isBlank hb (by decide)).symm
  have hplus : b ≠ '+' := (ne_of_isBlank hb (by decide)).symm
  simp [summands, cut, hbackslash, hplus]

/-- What the pieces between plus signs say does not change with a blank in front. -/
theorem filterMap_summands_cons (cs : List Char) :
    (summands false false (b :: cs)).filterMap readComponent? = (summands false false cs).filterMap readComponent? := by
  rw [summands_cons hb]
  cases summands false false cs with
  | nil =>
    have hnone : readComponent? [b] = none :=
      readComponent?_of_not_mem (by simpa using ne_of_isBlank hb (by decide))
    simp [consFirst, hnone]
  | cons first rest => simp only [consFirst, List.filterMap_cons, readComponent?_cons hb]

theorem filterMap_summands_concat (cs : List Char) :
    (summands false false (cs ++ [b])).filterMap readComponent? =
      (summands false false cs).filterMap readComponent? := by
  have hplus : b ≠ '+' := (ne_of_isBlank hb (by decide)).symm
  obtain ⟨front, last, heq, heq'⟩ : ∃ front last, summands false false cs = front ++ [last] ∧
      summands false false (cs ++ [b]) = front ++ [last ++ [b]] :=
    cut_concat hb (by simpa using hplus) false false false cs
  simp only [heq, heq', List.filterMap_append, List.filterMap_cons, List.filterMap_nil, readComponent?_concat hb]

end Blanks

theorem components_eq (rdn : String) :
    components rdn = (summands false false rdn.toList).filterMap readComponent? := rfl

/-- Blanks around a relative name are not part of its values. -/
theorem components_trim (rdn : String) : components (Text.trim rdn) = components rdn := by
  rw [components_eq, components_eq, Text.trim, String.toList_ofList]
  exact Text.apply_trimChars (fun cs => (summands false false cs).filterMap readComponent?)
    (fun _ cs hb => filterMap_summands_cons hb cs) (fun _ cs hb => filterMap_summands_concat hb cs) rdn.toList

/-! ### Composed names -/

theorem head?_split_cons {rdn dn : String} (h : Whole rdn) (hs : Sealed rdn) :
    (split (rdn ++ "," ++ dn)).head? = some rdn := by
  have hcut : cutFrom {} (rdn ++ "," ++ dn).toList = rdn.toList :: cutFrom {} dn.toList := by
    simpa using cutFrom_separator h.unbroken hs
  have hmore : cutFrom {} dn.toList ≠ [] := cutFrom_ne_nil
  rw [split_eq, hcut]
  simp [h.trimmed, hmore]

theorem naming_cons {rdn dn : String} (h : Whole rdn) (hs : Sealed rdn) :
    naming (rdn ++ "," ++ dn) = components rdn := by
  simp [naming, head?_split_cons h hs]

variable {dn newDn rdn sub : String}

/-- A single relative name lends its values to every name that begins with it. -/
theorem Single.naming_newName (h : Single rdn) (superior : String) :
    naming (Directory.newName rdn superior) = components rdn := by
  rw [← components_trim]
  unfold Directory.newName
  split
  · simp [naming, h.one]
  · exact naming_cons (whole_of_mem_split (h.one ▸ List.mem_singleton_self _)) h.closed

/-- An entry that moves along with the one above it keeps the values of its name. -/
theorem naming_relocated_subset (hs : Plain sub) (hdn : split dn ≠ []) :
    naming (relocated dn newDn sub) ⊆ naming sub := by
  unfold relocated
  cases hl : leading sub dn with
  | nil =>
    have hempty : naming ("" ++ "," ++ newDn) = components "" := naming_cons ⟨trivial, rfl⟩ rfl
    rw [show ",".intercalate ([] : List String) = "" from rfl, hempty]
    exact List.nil_subset _
  | cons rdn rest =>
    obtain ⟨hmem, hclosed⟩ : rdn ∈ split sub ∧ Sealed rdn := sealed_leading hs hdn (hl ▸ List.mem_cons_self)
    have hfirst : (split sub).head? = some rdn := by
      obtain ⟨others, hothers⟩ : leading sub dn <+: split sub := List.take_prefix _ _
      rw [← hothers, hl, List.cons_append, List.head?_cons]
    have hglue : ∃ others, ",".intercalate (rdn :: rest) ++ "," ++ newDn = rdn ++ "," ++ others := by
      cases rest with
      | nil => exact ⟨newDn, by simp⟩
      | cons second rest =>
        refine ⟨",".intercalate (second :: rest) ++ "," ++ newDn, ?_⟩
        simp [String.intercalate_cons_cons, String.append_assoc]
    obtain ⟨others, hothers⟩ := hglue
    rw [hothers, naming_cons (whole_of_mem_split hmem) hclosed, naming, hfirst]
    exact List.Subset.refl _

end Ldap.Dn
