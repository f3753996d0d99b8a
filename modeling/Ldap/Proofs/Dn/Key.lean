import Ldap.Dn
import Mathlib.Data.List.Induction

/-! What the key of a name tells about the name. A key is the normalized relative names with commas between
them, and values may hold commas too. Two names have the same key just if they are the same once every comma is
taken for a separator. A key tells the relative names apart where no equals sign stands behind a comma within
one of them. -/

namespace Ldap.Dn

/-! ### Lists of blocks -/

section Blocks

variable {α β : Type*} {p : α → Prop} {f : β → List α}

/-- The first element of the block has a mark that the others do not have. -/
def Marked (p : α → Prop) (block : List α) : Prop :=
  ∃ first rest, block = first :: rest ∧ p first ∧ ∀ a ∈ rest, ¬ p a

theorem Marked.ne_nil {block : List α} (h : Marked p block) : block ≠ [] := by
  obtain ⟨first, rest, rfl, -⟩ := h
  exact List.cons_ne_nil first rest

/-- Where the last block of a list begins can be seen from the end of the list. -/
theorem Marked.eq_of_append {b c u v : List α} (hb : Marked p b) (hc : Marked p c)
    (h : u ++ b = v ++ c) : u = v ∧ b = c := by
  obtain ⟨x, s, rfl, hx, hs⟩ := hb
  obtain ⟨y, t, rfl, hy, ht⟩ := hc
  rcases List.append_eq_append_iff.mp h with ⟨w, rfl, hw⟩ | ⟨w, rfl, hw⟩
  · cases w with
    | nil => exact ⟨(List.append_nil u).symm, hw⟩
    | cons z w =>
      -- the mark of the second block would stand inside the first one
      obtain ⟨rfl, rfl⟩ := List.cons.inj hw
      exact absurd hy (hs y (by simp))
  · cases w with
    | nil => exact ⟨List.append_nil v, hw.symm⟩
    | cons z w =>
      obtain ⟨rfl, rfl⟩ := List.cons.inj hw
      exact absurd hx (ht x (by simp))

/-- If some blocks in a row are the end of others in a row, they are the last of these. -/
theorem suffix_of_flatMap_suffix (hf : Function.Injective f) {bs cs : List β}
    (hb : ∀ b ∈ bs, Marked p (f b)) (hc : ∀ c ∈ cs, Marked p (f c))
    (h : bs.flatMap f <:+ cs.flatMap f) : bs <:+ cs := by
  induction bs using List.reverseRecOn generalizing cs with
  | nil => exact List.nil_suffix
  | append_singleton bs b ih =>
    rw [List.flatMap_append, List.flatMap_singleton] at h
    obtain ⟨w, hw⟩ := h
    rw [← List.append_assoc] at hw
    rcases List.eq_nil_or_concat cs with rfl | ⟨cs, c, rfl⟩
    · exact absurd (List.append_eq_nil_iff.mp hw).2 (hb b (by simp)).ne_nil
    · rw [List.concat_eq_append, List.flatMap_append, List.flatMap_singleton] at hw
      obtain ⟨hu, hbc⟩ := (hb b (by simp)).eq_of_append (hc c (by simp)) hw
      have hrest : bs <:+ cs :=
        ih (fun b h => hb b (by simp [h])) (fun c h => hc c (by simp [h])) ⟨w, hu⟩
      obtain ⟨v, rfl⟩ := hrest
      exact ⟨v, by rw [hf hbc]; simp⟩

end Blocks

/-! ### Commas -/

/-- What stands between the commas of a text. -/
def pieces (s : String) : List (List Char) := s.toList.splitOn ','

theorem pieces_ne_nil (s : String) : pieces s ≠ [] := List.splitOn_ne_nil ',' s.toList

theorem intercalate_pieces (s : String) : [','].intercalate (pieces s) = s.toList :=
  List.intercalate_splitOn ','

theorem pieces_injective : Function.Injective pieces := by
  intro s t h
  rw [← String.toList_inj, ← intercalate_pieces s, ← intercalate_pieces t, h]

theorem pieces_append_comma (s t : String) : pieces (s ++ "," ++ t) = pieces s ++ pieces t := by
  simp [pieces, List.splitOn_append_cons_self]

theorem pieces_intercalate {l : List String} (h : l ≠ []) :
    pieces (",".intercalate l) = l.flatMap pieces := by
  induction l with
  | nil => exact absurd rfl h
  | cons s l ih =>
    cases l with
    | nil => simp
    | cons t l =>
      rw [String.intercalate_cons_cons, pieces_append_comma, ih (by simp)]
      rfl

theorem length_splitOn {α : Type*} [DecidableEq α] (a : α) (as : List α) :
    (as.splitOn a).length = as.count a + 1 := by
  induction as with
  | nil => rfl
  | cons x as ih =>
    rw [List.splitOn_cons_eq_if_modifyHead, List.count_cons]
    split <;> simp [ih]

theorem length_pieces (s : String) : (pieces s).length = s.toList.count ',' + 1 := length_splitOn ',' s.toList

theorem intercalate_append {α : Type*} {sep : List α} {l m : List (List α)} (hl : l ≠ []) (hm : m ≠ []) :
    sep.intercalate (l ++ m) = sep.intercalate l ++ sep ++ sep.intercalate m := by
  induction l with
  | nil => exact absurd rfl hl
  | cons first l ih =>
    cases l with
    | nil =>
      obtain ⟨second, m, rfl⟩ := List.exists_cons_of_ne_nil hm
      simp
    | cons second l =>
      have hrest := ih (List.cons_ne_nil second l)
      rw [List.cons_append] at hrest
      simp [hrest]

theorem mem_intercalate {α : Type*} {a : α} {sep : List α} {l : List (List α)}
    (h : a ∈ sep.intercalate l) : a ∈ sep ∨ ∃ piece ∈ l, a ∈ piece := by
  induction l with
  | nil => exact absurd h (by simp)
  | cons first l ih =>
    cases l with
    | nil => exact .inr ⟨first, by simp, by simpa using h⟩
    | cons second l =>
      simp only [List.intercalate_cons_cons, List.mem_append] at h
      rcases h with (h | h) | h
      · exact .inr ⟨first, by simp, h⟩
      · exact .inl h
      · rcases ih h with h | ⟨piece, hp, h⟩
        · exact .inl h
        · exact .inr ⟨piece, List.mem_cons_of_mem _ hp, h⟩

theorem mem_intercalate_of_mem {α : Type*} {a : α} {sep piece : List α} {l : List (List α)}
    (hp : piece ∈ l) (h : a ∈ piece) : a ∈ sep.intercalate l := by
  induction l with
  | nil => exact absurd hp List.not_mem_nil
  | cons first l ih =>
    cases l with
    | nil =>
      obtain rfl := List.mem_singleton.mp hp
      simpa using h
    | cons second l =>
      simp only [List.intercalate_cons_cons, List.mem_append]
      rcases List.mem_cons.mp hp with rfl | hp
      · exact .inl (.inl h)
      · exact .inr (ih hp)

/-! ### Keys -/

/-- Every relative name has an attribute value. -/
def Named (dn : String) : Prop := ∀ rdn ∈ split dn, components rdn ≠ []

/-- In no normalized relative name an equals sign stands behind a comma. -/
def Legible (dn : String) : Prop := ∀ rdn ∈ rdns dn, ∀ piece ∈ (pieces rdn).tail, '=' ∉ piece

/-- What stands between the commas of a key, whether these separate relative names or belong to values. -/
def keyPieces (dn : String) : List (List Char) := (rdns dn).flatMap pieces

/-- How many commas stand within the normalized relative names of a name. -/
def commas (dn : String) : ℕ := ((rdns dn).flatMap String.toList).count ','

instance (dn : String) : Decidable (Named dn) :=
  inferInstanceAs (Decidable (∀ rdn ∈ split dn, components rdn ≠ []))

instance (dn : String) : Decidable (Legible dn) :=
  inferInstanceAs (Decidable (∀ rdn ∈ rdns dn, ∀ piece ∈ (pieces rdn).tail, '=' ∉ piece))

theorem eq_mem_normalizeRdn {rdn : String} (h : components rdn ≠ []) :
    '=' ∈ (normalizeRdn rdn).toList := by
  obtain ⟨c, rest, hc⟩ := List.exists_cons_of_ne_nil h
  have hmem : c.normalize ∈
      ((components rdn).map NameValue.normalize).mergeSort fun a b => decide (a ≤ b) := by
    rw [List.mem_mergeSort, hc]
    simp
  have hin : '=' ∈ c.normalize.toList := by simp [NameValue.normalize]
  rw [normalizeRdn, String.toList_intercalate]
  exact mem_intercalate_of_mem (List.mem_map_of_mem hmem) hin

variable {a b dn : String}

theorem Named.eq_mem (h : Named dn) {rdn : String} (hr : rdn ∈ rdns dn) : '=' ∈ rdn.toList := by
  obtain ⟨r, hmem, rfl⟩ := List.mem_map.mp hr
  exact eq_mem_normalizeRdn (h r hmem)

/-- The equals sign of a legible relative name stands in its first piece, and in no other one. -/
theorem Legible.marked (hn : Named dn) (hl : Legible dn) {rdn : String} (hr : rdn ∈ rdns dn) :
    Marked ('=' ∈ ·) (pieces rdn) := by
  obtain ⟨first, rest, heq⟩ := List.exists_cons_of_ne_nil (pieces_ne_nil rdn)
  have hrest : ∀ piece ∈ rest, '=' ∉ piece := by simpa [heq] using hl rdn hr
  refine ⟨first, rest, heq, ?_, hrest⟩
  have hmem := hn.eq_mem hr
  rw [← intercalate_pieces, heq] at hmem
  rcases mem_intercalate hmem with h | ⟨piece, hp, h⟩
  · exact absurd h (by decide)
  · rcases List.mem_cons.mp hp with rfl | hp
    · exact h
    · exact absurd h (hrest piece hp)

theorem pieces_normalize (h : rdns dn ≠ []) : pieces (normalize dn) = keyPieces dn :=
  pieces_intercalate h

theorem normalize_of_rdns_nil (h : rdns dn = []) : normalize dn = "" := by simp [normalize, h]

/-- The key of a name is empty just if the name is. -/
theorem Named.normalize_eq_empty_iff (h : Named dn) : normalize dn = "" ↔ rdns dn = [] := by
  refine ⟨fun hk => ?_, normalize_of_rdns_nil⟩
  by_contra hne
  obtain ⟨rdn, hr⟩ := List.exists_mem_of_ne_nil _ hne
  have hmem : '=' ∈ (normalize dn).toList := by
    rw [normalize, String.toList_intercalate]
    exact mem_intercalate_of_mem (List.mem_map_of_mem hr) (h.eq_mem hr)
  simp [hk] at hmem

theorem keyPieces_eq_nil_iff : keyPieces dn = [] ↔ rdns dn = [] := by
  refine ⟨fun h => ?_, fun h => by simp [keyPieces, h]⟩
  rcases hr : rdns dn with _ | ⟨first, rest⟩
  · rfl
  · simp [keyPieces, hr, pieces_ne_nil] at h

/-- In a key each comma in a value cuts off one more piece. -/
theorem length_keyPieces (dn : String) : (keyPieces dn).length = (rdns dn).length + commas dn := by
  rw [keyPieces, commas]
  induction rdns dn with
  | nil => rfl
  | cons rdn rest ih =>
    rw [List.flatMap_cons, List.flatMap_cons, List.length_append, List.count_append, List.length_cons, ih,
      length_pieces]
    omega

/-- Names that are not empty have the same key just if they are the same once every comma is taken for a separator. -/
theorem normalize_eq_iff_of_ne_nil (ha : rdns a ≠ []) (hb : rdns b ≠ []) :
    normalize a = normalize b ↔ keyPieces a = keyPieces b := by
  rw [← pieces_normalize ha, ← pieces_normalize hb, pieces_injective.eq_iff]

/-- Names have the same key just if they are the same once every comma is taken for a separator. -/
theorem normalize_eq_iff (ha : Named a) (hb : Named b) :
    normalize a = normalize b ↔ keyPieces a = keyPieces b := by
  by_cases ha0 : rdns a = []
  · rw [normalize_of_rdns_nil ha0, keyPieces_eq_nil_iff.mpr ha0, eq_comm, hb.normalize_eq_empty_iff,
      ← keyPieces_eq_nil_iff, eq_comm]
  · by_cases hb0 : rdns b = []
    · rw [normalize_of_rdns_nil hb0, ha.normalize_eq_empty_iff, keyPieces_eq_nil_iff.mpr hb0,
        keyPieces_eq_nil_iff]
    · exact normalize_eq_iff_of_ne_nil ha0 hb0

theorem isWithin_iff {key base : String} :
    isWithin key base ↔ base = "" ∨ key = base ∨ ',' :: base.toList <:+ key.toList := by
  simp [isWithin, or_assoc, List.isSuffixOf_iff_suffix]

/-- A key lies within another one that is not empty just if the one name ends with the other once every comma is taken
for a separator. -/
theorem isWithin_normalize_iff_of_ne_empty (hb : normalize b ≠ "") :
    isWithin (normalize a) (normalize b) ↔ keyPieces b <:+ keyPieces a := by
  have hb0 : rdns b ≠ [] := mt normalize_of_rdns_nil hb
  rw [isWithin_iff, or_iff_right hb]
  constructor
  · rintro (h | ⟨u, hu⟩)
    · have ha0 : rdns a ≠ [] := fun ha => hb (h ▸ normalize_of_rdns_nil ha)
      exact ((normalize_eq_iff_of_ne_nil ha0 hb0).mp h) ▸ List.suffix_refl _
    · have ha0 : rdns a ≠ [] := fun h => by simp [normalize_of_rdns_nil h] at hu
      rw [← pieces_normalize ha0, ← pieces_normalize hb0]
      exact ⟨u.splitOn ',', by rw [pieces, pieces, ← hu, List.splitOn_append_cons_self]⟩
  · rintro ⟨u, hu⟩
    have ha0 : rdns a ≠ [] := by
      intro ha
      rw [keyPieces_eq_nil_iff.mpr ha] at hu
      exact hb0 (keyPieces_eq_nil_iff.mp (List.append_eq_nil_iff.mp hu).2)
    by_cases hu0 : u = []
    · exact .inl ((normalize_eq_iff_of_ne_nil ha0 hb0).mpr (by rw [← hu, hu0, List.nil_append]))
    · right
      rw [← pieces_normalize ha0, ← pieces_normalize hb0] at hu
      refine ⟨[','].intercalate u, ?_⟩
      rw [← intercalate_pieces (normalize a), ← hu, intercalate_append hu0 (pieces_ne_nil _),
        intercalate_pieces, List.append_assoc, List.singleton_append]

/-- The key of one name lies within that of another just if the one ends with the other once every comma is taken
for a separator. -/
theorem isWithin_normalize_iff (hb : Named b) :
    isWithin (normalize a) (normalize b) ↔ keyPieces b <:+ keyPieces a := by
  by_cases hb0 : rdns b = []
  · simp [isWithin_iff, normalize_of_rdns_nil hb0, keyPieces_eq_nil_iff.mpr hb0]
  · exact isWithin_normalize_iff_of_ne_empty fun h => hb0 (hb.normalize_eq_empty_iff.mp h)

theorem keyPieces_suffix (h : rdns b <:+ rdns a) : keyPieces b <:+ keyPieces a := by
  obtain ⟨u, hu⟩ := h
  exact ⟨u.flatMap pieces, by rw [keyPieces, keyPieces, ← hu, List.flatMap_append]⟩

/-- Commas in the values of legible names are not taken for separators. -/
theorem suffix_of_keyPieces_suffix (ha : Named a) (hb : Named b) (hla : Legible a) (hlb : Legible b)
    (h : keyPieces b <:+ keyPieces a) : rdns b <:+ rdns a :=
  suffix_of_flatMap_suffix pieces_injective (fun _ => hlb.marked hb) (fun _ => hla.marked ha) h

theorem rdns_eq_of_suffix (h : rdns b <:+ rdns a) (hk : keyPieces a = keyPieces b) : rdns a = rdns b := by
  obtain ⟨u, hu⟩ := h
  have hnil : u.flatMap pieces = [] := by
    rw [keyPieces, keyPieces, ← hu, List.flatMap_append] at hk
    exact List.append_left_eq_self.mp hk
  have hu0 : u = [] := by
    rcases u with _ | ⟨s, u⟩
    · rfl
    · simp [pieces_ne_nil] at hnil
  rw [← hu, hu0, List.nil_append]

/-- The keys of two names say whether the names are the same, and whether the one lies at or below the other. -/
structure Faithful (a b : String) : Prop where
  eq_iff : normalize a = normalize b ↔ rdns a = rdns b
  within_iff : isWithin (normalize a) (normalize b) ↔ rdns b <:+ rdns a

theorem Faithful.of_suffix (ha : Named a) (hb : Named b)
    (h : keyPieces b <:+ keyPieces a → rdns b <:+ rdns a) : Faithful a b where
  eq_iff := by
    rw [normalize_eq_iff ha hb]
    refine ⟨fun hk => ?_, fun hr => by rw [keyPieces, keyPieces, hr]⟩
    exact rdns_eq_of_suffix (h (hk ▸ List.suffix_refl _)) hk
  within_iff := by
    rw [isWithin_normalize_iff hb]
    exact ⟨h, keyPieces_suffix⟩

theorem Faithful.of_legible (ha : Named a) (hb : Named b) (hla : Legible a) (hlb : Legible b) : Faithful a b :=
  .of_suffix ha hb (suffix_of_keyPieces_suffix ha hb hla hlb)

/-- Keys are faithful to two names just if no end of the one is the other only because commas in values are taken
for separators. They always are if no equals sign stands behind a comma within a relative name. -/
theorem faithful_iff (a b : String) (ha : Named a) (hb : Named b) :
    (Faithful a b ↔ (keyPieces b <:+ keyPieces a → rdns b <:+ rdns a)) ∧
      (Legible a → Legible b → Faithful a b) := by
  refine ⟨⟨fun hf hk => ?_, .of_suffix ha hb⟩, .of_legible ha hb⟩
  exact hf.within_iff.mp ((isWithin_normalize_iff hb).mpr hk)

theorem faithful_iff_people : let a := "cn=Doe\\, John;ou=People , o=x"
    let b := "OU=people,o=X"
    Named a ∧ Named b ∧ Legible a ∧ Legible b ∧ Faithful a b := by
  have ha : Named "cn=Doe\\, John;ou=People , o=x" := by decide +kernel
  have hb : Named "OU=people,o=X" := by decide +kernel
  have hla : Legible "cn=Doe\\, John;ou=People , o=x" := by decide +kernel
  have hlb : Legible "OU=people,o=X" := by decide +kernel
  exact ⟨ha, hb, hla, hlb, (faithful_iff _ _ ha hb).2 hla hlb⟩

/-- An escaped comma in a value is not told from a separator. -/
theorem not_faithful_escaped : let a := "cn=a\\,o=x"
    Named a ∧ Named "cn=a,o=x" ∧ Named "o=x" ∧
      ¬ (normalize a = normalize "cn=a,o=x" ↔ rdns a = rdns "cn=a,o=x") ∧
      ¬ (isWithin (normalize a) (normalize "o=x") ↔ rdns "o=x" <:+ rdns a) := by
  decide +kernel

end Ldap.Dn
