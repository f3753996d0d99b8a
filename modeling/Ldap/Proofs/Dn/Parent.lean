import Ldap.Proofs.Dn.Split

/-! The names above a name. Each is put together from the relative names of the one below it but the first, without
the blanks that stood around them, and is cut again. It has the same relative names just if all but the last of them
keep their ends. One that ends with an escaped blank does not, since the blank is removed and its backslash is left:
then the comma behind it is escaped, and there is one relative name less for each of these. -/

namespace Ldap.Dn

variable {x : Context} {c : Char} {cs : List Char} {dn rdn : String}

/-! ### Ends of relative names -/

theorem Context.quoted_next (x : Context) (h : c ≠ '"') : (x.next c).quoted = x.quoted := by
  unfold next
  rw [if_neg h]
  split
  · rfl
  · split <;> rfl

/-- Each piece but the last ends at a separator. -/
theorem after_of_cutFrom {first : List Char} {pieces : List (List Char)} (h : cutFrom x cs = first :: pieces) :
    (pieces ≠ [] → x.after first = {}) ∧ ∀ piece ∈ pieces.dropLast, ({} : Context).after piece = {} := by
  induction cs generalizing x first pieces with
  | nil =>
    obtain ⟨-, rfl⟩ : [] = first ∧ [] = pieces := by simpa [cutFrom, cut] using h
    exact ⟨fun hne => absurd rfl hne, by simp⟩
  | cons c cs ih =>
    have hne : cutFrom (x.next c) cs ≠ [] := cutFrom_ne_nil
    obtain ⟨next, others, hnext⟩ := List.exists_cons_of_ne_nil hne
    obtain ⟨hfirst, hothers⟩ := ih hnext
    rw [cutFrom_cons, hnext] at h
    by_cases hs : x.separates c = true
    · obtain ⟨hx, hc⟩ := Context.next_of_separates hs
      rw [if_pos hs] at h
      obtain ⟨rfl, rfl⟩ := List.cons.inj h
      refine ⟨fun _ => hx, fun piece hp => ?_⟩
      have hmore : others ≠ [] := by
        rintro rfl
        cases hp
      rw [List.dropLast_cons_of_ne_nil hmore, List.mem_cons] at hp
      rcases hp with rfl | hp
      · exact hc ▸ hfirst hmore
      · exact hothers piece hp
    · rw [if_neg hs] at h
      obtain ⟨rfl, rfl⟩ := List.cons.inj h
      exact ⟨hfirst, hothers⟩

/-- Blanks may be escaped, but they open and close no quotes. -/
theorem quoted_after_trimChars (cs : List Char) :
    (({} : Context).after (Text.trimChars cs)).quoted = (({} : Context).after cs).quoted := by
  refine Text.apply_trimChars (fun cs => (({} : Context).after cs).quoted) (fun b cs hb => ?_) (fun b cs hb => ?_) cs
  · simp only [Context.after, List.foldl_cons, next_of_isBlank hb]
  · have hquote : b ≠ '"' := (Text.ne_of_isBlank hb (by decide)).symm
    simp only [Context.after_append]
    exact Context.quoted_next _ hquote

/-- Quotes are left open by the last relative name at most. -/
theorem quoted_of_mem_split (h : rdn ∈ (split dn).dropLast) : (({} : Context).after rdn.toList).quoted = false := by
  rw [split_eq] at h
  split at h
  · cases h
  · rw [← List.map_dropLast, ← List.map_dropLast] at h
    obtain ⟨_, hmem, rfl⟩ := List.mem_map.mp h
    obtain ⟨piece, hpiece, rfl⟩ := List.mem_map.mp hmem
    have hne : cutFrom {} dn.toList ≠ [] := cutFrom_ne_nil
    obtain ⟨first, pieces, heq⟩ := List.exists_cons_of_ne_nil hne
    obtain ⟨hfirst, hpieces⟩ := after_of_cutFrom heq
    have hmore : pieces ≠ [] := by
      rintro rfl
      simp [heq] at hpiece
    rw [heq, List.dropLast_cons_of_ne_nil hmore, List.mem_cons] at hpiece
    rw [String.toList_ofList, quoted_after_trimChars]
    rcases hpiece with rfl | hpiece
    · rw [hfirst hmore]
    · rw [hpieces piece hpiece]

/-! ### The number of relative names -/

/-- A comma behind a relative name separates just if the relative name keeps its end. -/
theorem length_cutFrom_comma (h : Unbroken {} rdn.toList) (hq : (({} : Context).after rdn.toList).quoted = false)
    (rest : List Char) :
    (cutFrom {} (rdn.toList ++ ',' :: rest)).length = (cutFrom {} rest).length + if Sealed rdn then 1 else 0 := by
  by_cases hs : Sealed rdn
  · rw [cutFrom_separator h hs, if_pos hs, List.length_cons]
  · have hopen : ({} : Context).after rdn.toList = { escaped := true } := by
      unfold Sealed at hs
      rcases hx : ({} : Context).after rdn.toList with ⟨_ | _, _ | _⟩ <;> simp_all
    have hcomma : cutFrom { escaped := true } (',' :: rest) = consFirst ',' (cutFrom {} rest) := cutFrom_cons _ ',' rest
    have hne : cutFrom {} rest ≠ [] := cutFrom_ne_nil
    obtain ⟨first, pieces, heq⟩ := List.exists_cons_of_ne_nil hne
    rw [cutFrom_append h, hopen, hcomma, heq, consFirst, foldr_consFirst, if_neg hs]
    rfl

theorem length_cutFrom_intercalate {rdns : List String} (hne : rdns ≠ []) (hw : ∀ rdn ∈ rdns, Whole rdn)
    (hq : ∀ rdn ∈ rdns.dropLast, (({} : Context).after rdn.toList).quoted = false) :
    (cutFrom {} (",".intercalate rdns).toList).length = rdns.dropLast.countP (Sealed ·) + 1 := by
  induction rdns with
  | nil => exact absurd rfl hne
  | cons rdn rdns ih =>
    have hu : Unbroken {} rdn.toList := (hw rdn List.mem_cons_self).unbroken
    cases rdns with
    | nil => simp [cutFrom_of_unbroken hu]
    | cons second rdns =>
      have hrest := ih (by simp) (fun r hr => hw r (List.mem_cons_of_mem _ hr))
        (fun r hr => hq r (List.mem_cons_of_mem _ hr))
      have hglue : (",".intercalate (rdn :: second :: rdns)).toList =
          rdn.toList ++ ',' :: (",".intercalate (second :: rdns)).toList := by
        simp [String.intercalate_cons_cons]
      have hmore : second :: rdns ≠ [] := List.cons_ne_nil second rdns
      rw [hglue, length_cutFrom_comma hu (hq rdn (by simp)), hrest, List.dropLast_cons_of_ne_nil hmore,
        List.countP_cons]
      simp only [decide_eq_true_eq]
      omega

theorem length_split_le (dn : String) : (split dn).length ≤ (cutFrom {} dn.toList).length := by
  rw [split_eq]
  split <;> simp

theorem length_split (h : split dn ≠ []) : (split dn).length = (cutFrom {} dn.toList).length := by
  rw [split_eq] at h ⊢
  split at h
  · exact absurd rfl h
  · rename_i hne
    simp [hne]

/-- Those relative names between the first and the last one count that keep their ends. -/
theorem length_cutFrom_above (h : (split dn).tail ≠ []) :
    (cutFrom {} (above dn).toList).length = (split dn).tail.dropLast.countP (Sealed ·) + 1 := by
  rw [above_eq]
  refine length_cutFrom_intercalate h (fun rdn hr => whole_of_mem_split (List.mem_of_mem_tail hr)) fun rdn hr => ?_
  rw [← List.tail_dropLast] at hr
  exact quoted_of_mem_split (List.mem_of_mem_tail hr)

/-- The name above another one has fewer relative names, whatever becomes of them. -/
theorem length_split_above_lt (h : split dn ≠ []) : (split (above dn)).length < (split dn).length := by
  rcases hs : split dn with _ | ⟨first, others⟩
  · exact absurd hs h
  · by_cases ho : others = []
    · have habove : split (above dn) = [] := by
        rw [above_eq, hs, ho]
        rfl
      simp [habove]
    · have ht : (split dn).tail ≠ [] := by simpa [hs] using ho
      have hcount : (cutFrom {} (above dn).toList).length = others.dropLast.countP (Sealed ·) + 1 := by
        rw [length_cutFrom_above ht, hs, List.tail_cons]
      have hle : others.dropLast.countP (Sealed ·) ≤ others.length - 1 :=
        List.countP_le_length.trans_eq List.length_dropLast
      have hpos : 0 < others.length := List.length_pos_iff.mpr ho
      have hsplit := length_split_le (above dn)
      rw [List.length_cons]
      omega

/-! ### Names that lose the first relative name alone -/

/-- The relative names between the first and the last one keep their ends. -/
def Joinable (dn : String) : Prop := ∀ rdn ∈ (split dn).tail.dropLast, Sealed rdn

instance (dn : String) : Decidable (Joinable dn) :=
  inferInstanceAs (Decidable (∀ rdn ∈ (split dn).tail.dropLast, Sealed rdn))

/-- The name above another one has its relative names but the first just if it can be put together from them. -/
theorem split_above_iff (h : Named dn) : split (above dn) = (split dn).tail ↔ Joinable dn := by
  refine ⟨fun heq => ?_, split_above_of_sealed h.empty_not_mem⟩
  by_cases ht : (split dn).tail = []
  · simp [Joinable, ht]
  · have hpos : 0 < (split dn).tail.length := List.length_pos_iff.mpr ht
    have hcount : (split dn).tail.length = (split dn).tail.dropLast.countP (Sealed ·) + 1 := by
      rw [← length_cutFrom_above ht, ← length_split (heq ▸ ht), heq]
    have hall : (split dn).tail.dropLast.countP (Sealed ·) = (split dn).tail.dropLast.length := by
      rw [List.length_dropLast]
      omega
    simpa [Joinable] using List.countP_eq_length.mp hall

section Joinable

variable (hn : Named dn) (hj : Joinable dn)
include hn hj

theorem named_above : Named (above dn) := by
  intro rdn hr
  rw [(split_above_iff hn).mpr hj] at hr
  exact hn rdn (List.mem_of_mem_tail hr)

theorem joinable_above : Joinable (above dn) := by
  intro rdn hr
  rw [(split_above_iff hn).mpr hj, ← List.tail_dropLast] at hr
  exact hj rdn (List.mem_of_mem_tail hr)

end Joinable

/-! ### Names above names -/

theorem parent?_eq_none_iff : parent? dn = none ↔ split dn = [] := by
  unfold parent?
  cases split dn <;> simp

theorem parent?_eq_above (h : split dn ≠ []) : parent? dn = some (above dn) := by
  unfold above
  cases hp : parent? dn with
  | none => exact absurd (parent?_eq_none_iff.mp hp) h
  | some parent => rfl

/-- The name that is reached from a name in a number of steps up. -/
def ancestor? : ℕ → String → Option String
  | 0, dn => some dn
  | k + 1, dn => (parent? dn).bind (ancestor? k)

/-- There are no more steps than relative names. -/
theorem ancestor?_eq_none {k : ℕ} (h : (split dn).length < k) : ancestor? k dn = none := by
  induction k generalizing dn with
  | zero => omega
  | succ k ih =>
    by_cases hs : split dn = []
    · rw [ancestor?, parent?_eq_none_iff.mpr hs, Option.bind_none]
    · have hlt : (split (above dn)).length < (split dn).length := length_split_above_lt hs
      rw [ancestor?, parent?_eq_above hs, Option.bind_some]
      exact ih (by omega)

theorem exists_ancestor? (hn : Named dn) (hj : Joinable dn) {k : ℕ} (hk : k ≤ (split dn).length) :
    ∃ name, ancestor? k dn = some name ∧ split name = (split dn).drop k := by
  induction k generalizing dn with
  | zero => exact ⟨dn, rfl, rfl⟩
  | succ k ih =>
    have hs : split dn ≠ [] := List.length_pos_iff.mp (by omega)
    have hsplit : split (above dn) = (split dn).tail := (split_above_iff hn).mpr hj
    obtain ⟨name, hname, hdrop⟩ := ih (named_above hn hj) (joinable_above hn hj) (by
      rw [hsplit, List.length_tail]
      omega)
    refine ⟨name, ?_, ?_⟩
    · rw [ancestor?, parent?_eq_above hs, Option.bind_some, hname]
    · rw [hdrop, hsplit, List.drop_tail]

/-! ### Keys of ancestors -/

/-- The key of what is left of a name without its first relative names. -/
def suffixKey (dn : String) (k : ℕ) : String := ",".intercalate ((rdns dn).drop k)

theorem suffixKey_above (hn : Named dn) (hj : Joinable dn) (k : ℕ) : suffixKey (above dn) k = suffixKey dn (k + 1) := by
  rw [suffixKey, rdns, (split_above_iff hn).mpr hj, suffixKey, rdns, List.map_tail, List.drop_tail]

theorem normalize_above (hn : Named dn) (hj : Joinable dn) : normalize (above dn) = suffixKey dn 1 :=
  suffixKey_above hn hj 0

/-- Legible names tell by their keys whether the one is what is left of the other. -/
theorem normalize_eq_suffixKey_iff {a b : String} (ha : Named a) (hb : Named b) (hla : Legible a) (hlb : Legible b)
    (k : ℕ) : normalize a = suffixKey b k ↔ rdns a = (rdns b).drop k := by
  refine ⟨fun h => ?_, fun h => by rw [normalize, suffixKey, h]⟩
  by_cases hb0 : (rdns b).drop k = []
  · rw [suffixKey, hb0] at h
    rw [hb0, ← ha.normalize_eq_empty_iff, h]
    rfl
  · have ha0 : rdns a ≠ [] := by
      intro ha0
      obtain ⟨rdn, hr⟩ := List.exists_mem_of_ne_nil _ hb0
      have hmem : '=' ∈ (suffixKey b k).toList := by
        rw [suffixKey, String.toList_intercalate]
        exact mem_intercalate_of_mem (List.mem_map_of_mem hr) (hb.eq_mem (List.mem_of_mem_drop hr))
      simp [← h, normalize_of_rdns_nil ha0] at hmem
    have hpieces : (rdns a).flatMap pieces = ((rdns b).drop k).flatMap pieces := by
      rw [← pieces_intercalate ha0, ← pieces_intercalate hb0]
      exact congrArg pieces h
    have hma : ∀ rdn ∈ rdns a, Marked ('=' ∈ ·) (pieces rdn) := fun _ => hla.marked ha
    have hmb : ∀ rdn ∈ (rdns b).drop k, Marked ('=' ∈ ·) (pieces rdn) :=
      fun _ hr => hlb.marked hb (List.mem_of_mem_drop hr)
    have hab : rdns a <:+ (rdns b).drop k :=
      suffix_of_flatMap_suffix pieces_injective hma hmb (hpieces ▸ List.suffix_refl _)
    have hba : (rdns b).drop k <:+ rdns a :=
      suffix_of_flatMap_suffix pieces_injective hmb hma (hpieces ▸ List.suffix_refl _)
    exact hab.eq_of_length_le hba.length_le

end Ldap.Dn
