import Ldap.Proofs.Dn.Parent
import Ldap.Proofs.Dn.Value
import Ldap.Proofs.Text.Ascii

/-! Names that are written as they are, without backslashes and double quotes. Every comma in such a name separates, so
that none is left in its values, and its key tells how many relative names it has. The name above it is written in the
same way. -/

namespace Ldap

/-! ### Commas and lower case -/

namespace Text

/-- No run of capital letters beyond ASCII has a comma among its small letters. -/
theorem comma_lt_of_mem_lowerRuns : ∀ run ∈ CaseTable.lowerRuns, ','.toNat < run.2.2.2 := by decide +kernel

theorem eq_comma_of_lowerChar {c : Char} (h : lowerChar c = ',') : c = ',' := by
  unfold lowerChar at h
  split at h
  · have hnat := toNat_toLower c
    rw [h] at hnat
    refine Char.toNat_inj.mp ?_
    have hcomma : ','.toNat = 44 := rfl
    split at hnat <;> omega
  · dsimp only at h
    split at h
    · rename_i first last step small hrun
      have hlt : ','.toNat < small := comma_lt_of_mem_lowerRuns _ (List.mem_of_find?_eq_some hrun)
      have hne : Char.ofNat (small + (c.toNat - first)) ≠ ',' := by
        intro heq
        have hnat := congrArg Char.toNat heq
        by_cases hv : (small + (c.toNat - first)).isValidChar
        · rw [Char.ofNat, dif_pos hv] at hnat
          change small + (c.toNat - first) = ','.toNat at hnat
          omega
        · rw [Char.ofNat, dif_neg hv] at hnat
          exact absurd hnat (by decide)
      exact absurd h hne
    · exact h

theorem comma_not_mem_lowerChars {cs : List Char} (h : ',' ∉ cs) (before : List Char) :
    ',' ∉ lowerChars before cs := by
  induction cs generalizing before with
  | nil => exact List.not_mem_nil
  | cons c cs ih =>
    obtain ⟨hc, hcs⟩ : ',' ≠ c ∧ ',' ∉ cs := by rwa [List.mem_cons, not_or] at h
    rw [lowerChars, List.mem_append, not_or]
    refine ⟨?_, ih hcs _⟩
    split
    · split <;> decide
    · split
      · decide
      · rw [List.mem_singleton]
        exact fun heq => hc (eq_comma_of_lowerChar heq.symm).symm

theorem comma_not_mem_lowercase {s : String} (h : ',' ∉ s.toList) : ',' ∉ (lowercase s).toList := by
  rw [lowercase, String.toList_ofList]
  exact comma_not_mem_lowerChars h []

theorem comma_not_mem_lowerAscii {s : String} (h : ',' ∉ s.toList) : ',' ∉ (lowerAscii s).toList := by
  rw [lowerAscii, String.toList_ofList, List.mem_map]
  rintro ⟨c, hc, heq⟩
  have hlower := toNat_toLower c
  rw [heq] at hlower
  have hcomma : ','.toNat = 44 := rfl
  obtain rfl : c = ',' := Char.toNat_inj.mp (by split at hlower <;> omega)
  exact h hc

end Text

namespace Dn

variable {cs : List Char} {a b dn rdn : String}

/-- No character of the name takes the meaning of another one away. -/
structure Verbatim (dn : String) : Prop where
  backslash : '\\' ∉ dn.toList
  quote : '"' ∉ dn.toList

instance (dn : String) : Decidable (Verbatim dn) :=
  decidable_of_iff ('\\' ∉ dn.toList ∧ '"' ∉ dn.toList) ⟨fun ⟨hb, hq⟩ => ⟨hb, hq⟩, fun h => ⟨h.backslash, h.quote⟩⟩

/-! ### Relative names -/

/-- Without backslashes and quotes, characters that are not cut hold no separator. -/
theorem comma_not_mem_of_unbroken (hb : '\\' ∉ cs) (hq : '"' ∉ cs) (h : Unbroken {} cs) : ',' ∉ cs := by
  induction cs with
  | nil => exact List.not_mem_nil
  | cons c cs ih =>
    rw [List.mem_cons, not_or] at hb hq ⊢
    have hnext : ({} : Context).next c = {} := by simp [Context.next, Ne.symm hb.1, Ne.symm hq.1]
    refine ⟨?_, ih hb.2 hq.2 (hnext ▸ h.2)⟩
    rintro rfl
    exact absurd h.1 (by decide)

theorem Verbatim.of_mem_split (h : Verbatim dn) (hr : rdn ∈ split dn) : Verbatim rdn where
  backslash hc := h.backslash (exists_mem_of_mem_split (by decide) hr hc)
  quote hc := h.quote (exists_mem_of_mem_split (by decide) hr hc)

theorem Verbatim.comma_not_mem (h : Verbatim dn) (hr : rdn ∈ split dn) : ',' ∉ rdn.toList :=
  comma_not_mem_of_unbroken (h.of_mem_split hr).backslash (h.of_mem_split hr).quote (whole_of_mem_split hr).unbroken

/-- A relative name is normalized without a comma if it has none. -/
theorem comma_not_mem_normalizeRdn (h : ',' ∉ rdn.toList) : ',' ∉ (normalizeRdn rdn).toList := by
  rw [normalizeRdn, String.toList_intercalate]
  intro hmem
  rcases mem_intercalate hmem with hplus | ⟨piece, hp, hc⟩
  · exact absurd hplus (by decide)
  · obtain ⟨value, hv, rfl⟩ := List.mem_map.mp hp
    rw [List.mem_mergeSort] at hv
    obtain ⟨nv, hnv, rfl⟩ := List.mem_map.mp hv
    rw [components_eq] at hnv
    obtain ⟨summand, hs, hread⟩ := List.mem_filterMap.mp hnv
    have hnot : ',' ∉ summand := fun hin => h ((exists_mem_cut (by decide)).mp ⟨summand, hs, hin⟩)
    have hname : ',' ∉ nv.name.toList := fun hin => hnot (mem_of_readComponent? hread (.inl hin))
    have hvalue : ',' ∉ nv.value.toList := fun hin => hnot (mem_of_readComponent? hread (.inr hin))
    simp only [NameValue.normalize, String.toList_append, List.mem_append] at hc
    rcases hc with (hc | hc) | hc
    · exact Text.comma_not_mem_lowerAscii hname hc
    · exact absurd hc (by decide)
    · exact Text.comma_not_mem_lowercase hvalue hc

/-- All commas in the key of a name that is written as it is stand between relative names. -/
theorem Verbatim.commas_eq_zero (h : Verbatim dn) : commas dn = 0 := by
  rw [commas, List.count_eq_zero, List.mem_flatMap]
  rintro ⟨_, hmem, hc⟩
  obtain ⟨rdn, hr, rfl⟩ := List.mem_map.mp hmem
  exact comma_not_mem_normalizeRdn (h.comma_not_mem hr) hc

/-- Names with the same key that is not empty have as many relative names. -/
theorem Verbatim.length_split_eq (ha : Verbatim a) (hb : Verbatim b) (h : normalize a = normalize b)
    (hne : normalize a ≠ "") : (split a).length = (split b).length := by
  have hra : rdns a ≠ [] := mt normalize_of_rdns_nil hne
  have hrb : rdns b ≠ [] := mt normalize_of_rdns_nil (h ▸ hne)
  have hkeys : keyPieces a = keyPieces b := (normalize_eq_iff_of_ne_nil hra hrb).mp h
  have hla := length_keyPieces a
  have hlb := length_keyPieces b
  rw [ha.commas_eq_zero, length_rdns, Nat.add_zero] at hla
  rw [hb.commas_eq_zero, length_rdns, Nat.add_zero] at hlb
  rw [← hla, hkeys, hlb]

theorem Verbatim.above (h : Verbatim dn) : Verbatim (above dn) := by
  have hmem : ∀ c, c ≠ ',' → isSeparator c = false → c ∈ (Dn.above dn).toList → c ∈ dn.toList := by
    intro c hcomma hsep hc
    rw [above_eq, String.toList_intercalate] at hc
    rcases mem_intercalate hc with hc | ⟨piece, hp, hc⟩
    · exact absurd (by simpa using hc) hcomma
    · obtain ⟨rdn, hr, rfl⟩ := List.mem_map.mp hp
      exact exists_mem_of_mem_split hsep (List.mem_of_mem_tail hr) hc
  exact ⟨fun hc => h.backslash (hmem _ (by decide) (by decide) hc),
    fun hc => h.quote (hmem _ (by decide) (by decide) hc)⟩

/-- A name has more relative names than any other one whose key is that of the name above it. -/
theorem Verbatim.length_split_lt (ha : Verbatim a) (hb : Verbatim b) (hs : split b ≠ [])
    (h : normalize a = normalize (Dn.above b)) (hne : normalize a ≠ "") : (split a).length < (split b).length :=
  (ha.length_split_eq hb.above h hne).trans_lt (length_split_above_lt hs)

end Dn

end Ldap
