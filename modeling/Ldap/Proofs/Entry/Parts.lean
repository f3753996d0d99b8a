import Ldap.Entry.Match
import Mathlib.Data.List.Infix

/-! Parts of a value with gaps between them. Each part is looked for where it first occurs, and the search goes on
behind it. However else the parts could be placed, what is left behind them is the end of what this search leaves, so
that it misses no match. -/

namespace Ldap

namespace Text

variable {α : Type} [BEq α] [LawfulBEq α] {part l gap rest first : List α}

/-! ### One part -/

theorem strip?_eq_some_iff : strip? part l = some rest ↔ l = part ++ rest := by
  rw [strip?, Option.ite_none_right_eq_some, List.isPrefixOf_iff_prefix]
  constructor
  · rintro ⟨⟨rest, rfl⟩, h⟩
    simpa using h
  · rintro rfl
    simp

theorem append_of_afterFirst? (h : afterFirst? part l = some rest) : ∃ gap, l = gap ++ part ++ rest := by
  induction l with
  | nil =>
    rw [afterFirst?, Option.ite_none_right_eq_some, List.isEmpty_iff] at h
    obtain ⟨rfl, h⟩ := h
    exact ⟨[], by simpa using h.symm⟩
  | cons a l ih =>
    rw [afterFirst?, Option.orElse_eq_orElse, Option.orElse_eq_or, Option.or_eq_some_iff] at h
    rcases h with h | ⟨-, h⟩
    · exact ⟨[], strip?_eq_some_iff.mp h⟩
    · obtain ⟨gap, rfl⟩ := ih h
      exact ⟨a :: gap, rfl⟩

/-- Behind the first occurrence of a part there is no less than behind any other one. -/
theorem afterFirst?_of_append (h : l = gap ++ part ++ rest) :
    ∃ first, afterFirst? part l = some first ∧ rest <:+ first := by
  induction l generalizing gap with
  | nil =>
    obtain ⟨rfl, rfl, rfl⟩ : gap = [] ∧ part = [] ∧ rest = [] := by simpa using h
    exact ⟨[], rfl, List.suffix_refl _⟩
  | cons a l ih =>
    rw [afterFirst?, Option.orElse_eq_orElse, Option.orElse_eq_or]
    cases hs : strip? part (a :: l) with
    | some first =>
      refine ⟨first, rfl, ?_⟩
      have hfirst : a :: l = part ++ first := strip?_eq_some_iff.mp hs
      have hlength : part.length + first.length = gap.length + part.length + rest.length := by
        rw [← List.length_append, ← hfirst, h, List.length_append, List.length_append]
      exact List.suffix_of_suffix_length_le ⟨gap ++ part, h.symm⟩ ⟨part, hfirst.symm⟩ (by omega)
    | none =>
      cases gap with
      | nil =>
        have hsome : strip? part (a :: l) = some rest := strip?_eq_some_iff.mpr h
        rw [hs] at hsome
        cases hsome
      | cons b gap =>
        obtain ⟨first, hfirst, hsuffix⟩ := ih (List.cons.inj h).2
        exact ⟨first, hfirst, hsuffix⟩

theorem containsPart_iff : containsPart part l ↔ part <:+: l := by
  rw [containsPart, Option.isSome_iff_exists]
  constructor
  · rintro ⟨rest, h⟩
    obtain ⟨gap, h⟩ := append_of_afterFirst? h
    exact ⟨gap, rest, h.symm⟩
  · rintro ⟨gap, rest, h⟩
    obtain ⟨first, hfirst, -⟩ := afterFirst?_of_append h.symm
    exact ⟨first, hfirst⟩

/-! ### Many parts -/

/-- What is left of a list behind parts, each taken where it first occurs. -/
def afterAll? (parts : List (List α)) (l : List α) : Option (List α) :=
  parts.foldlM (fun rest part => afterFirst? part rest) l

/-- Parts in order, with a gap in front of each. -/
def spaced (gaps parts : List (List α)) : List α := (List.zipWith (· ++ ·) gaps parts).flatten

variable {parts gaps : List (List α)}

theorem append_of_afterAll? (h : afterAll? parts l = some rest) :
    ∃ gaps, gaps.length = parts.length ∧ l = spaced gaps parts ++ rest := by
  induction parts generalizing l with
  | nil =>
    obtain rfl : l = rest := by simpa [afterAll?] using h
    exact ⟨[], rfl, rfl⟩
  | cons part parts ih =>
    rw [afterAll?, List.foldlM_cons] at h
    obtain ⟨behind, hpart, hparts⟩ := Option.bind_eq_some_iff.mp h
    obtain ⟨gap, rfl⟩ := append_of_afterFirst? hpart
    obtain ⟨gaps, hlength, rfl⟩ := ih hparts
    exact ⟨gap :: gaps, by simp [hlength], by simp [spaced]⟩

/-- Wherever the parts may be found in the end of a list, taking each where it first occurs in the list finds them too,
and leaves no less. -/
theorem afterAll?_of_append (hg : gaps.length = parts.length) (h : spaced gaps parts ++ rest <:+ l) :
    ∃ first, afterAll? parts l = some first ∧ rest <:+ first := by
  induction parts generalizing gaps l with
  | nil =>
    obtain rfl := List.length_eq_zero_iff.mp hg
    exact ⟨l, rfl, h⟩
  | cons part parts ih =>
    obtain ⟨gap, gaps, rfl⟩ := List.exists_cons_of_length_eq_add_one hg
    obtain ⟨front, rfl⟩ := h
    have hplace : front ++ (spaced (gap :: gaps) (part :: parts) ++ rest) =
        (front ++ gap) ++ part ++ (spaced gaps parts ++ rest) := by
      simp [spaced]
    obtain ⟨behind, hpart, hsuffix⟩ := afterFirst?_of_append hplace
    obtain ⟨first, hparts, hrest⟩ := ih (by simpa using hg) hsuffix
    refine ⟨first, ?_, hrest⟩
    rw [afterAll?, List.foldlM_cons, hpart]
    exact hparts

end Text

/-! ### Values -/

open Text

variable {value : List UInt8} {initial final : Option (List UInt8)} {any : List (List UInt8)}

theorem matchesParts_eq : matchesParts value initial any final =
    ((strip? (lowerBytes (initial.getD [])) (lowerBytes value)).bind (afterAll? (any.map lowerBytes))).any
      (lowerBytes (final.getD [])).isSuffixOf := by
  have hall : ∀ rest, any.foldlM (fun rest part => afterFirst? (lowerBytes part) rest) rest =
      afterAll? (any.map lowerBytes) rest := fun rest => by rw [afterAll?, List.foldlM_map]
  simp only [matchesParts, hall]
  cases (strip? (lowerBytes (initial.getD [])) (lowerBytes value)).bind (afterAll? (any.map lowerBytes)) <;> rfl

theorem matchesParts_eq_true_iff : matchesParts value initial any final ↔
    ∃ rest left, lowerBytes value = lowerBytes (initial.getD []) ++ rest ∧
      afterAll? (any.map lowerBytes) rest = some left ∧ lowerBytes (final.getD []) <:+ left := by
  simp only [matchesParts_eq, Option.any_eq_true, Option.bind_eq_some_iff, strip?_eq_some_iff,
    List.isSuffixOf_iff_suffix]
  constructor
  · rintro ⟨left, ⟨rest, hrest, hall⟩, hsuffix⟩
    exact ⟨rest, left, hrest, hall, hsuffix⟩
  · rintro ⟨rest, left, hrest, hall, hsuffix⟩
    exact ⟨left, ⟨rest, hrest, hall⟩, hsuffix⟩

/-- A value has the parts of a filter just if it is made of them without regard to ASCII case, in order and with gaps
of any length between them, a part that is not asked for being empty. -/
theorem matchesParts_iff (value : List UInt8) (initial : Option (List UInt8)) (any : List (List UInt8))
    (final : Option (List UInt8)) : matchesParts value initial any final = true ↔
      ∃ (gaps : List (List UInt8)) (last : List UInt8), gaps.length = any.length ∧
        lowerBytes value = lowerBytes (initial.getD []) ++ spaced gaps (any.map lowerBytes) ++ last ++
          lowerBytes (final.getD []) := by
  rw [matchesParts_eq_true_iff]
  constructor
  · rintro ⟨rest, left, hrest, hall, last, rfl⟩
    obtain ⟨gaps, hlength, rfl⟩ := append_of_afterAll? hall
    exact ⟨gaps, last, by simpa using hlength, by simpa using hrest⟩
  · rintro ⟨gaps, last, hlength, hvalue⟩
    have hgaps : gaps.length = (any.map lowerBytes).length := by rw [hlength, List.length_map]
    obtain ⟨left, hall, hleft⟩ := afterAll?_of_append hgaps
      (List.suffix_refl (spaced gaps (any.map lowerBytes) ++ (last ++ lowerBytes (final.getD []))))
    exact ⟨_, left, by simpa using hvalue, hall, (List.suffix_append _ _).trans hleft⟩

end Ldap
