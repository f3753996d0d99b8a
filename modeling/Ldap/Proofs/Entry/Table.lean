import Ldap.Proofs.Entry.Change

/-! The attributes of an entry as a table. Their names are different up to ASCII case, and none of them is without
values. An edit may break this while it is under way: an attribute is made before it has values, and it may lose its
last one before it is dropped. What an edit that succeeds leaves is a table again. -/

namespace Ldap

open Text (sameText)

namespace Entry

variable {e : Entry} {name other : String} {a : Attribute} {value : List UInt8} {vs : List (List UInt8)}

/-- No two attributes have the same name. -/
def Distinct (e : Entry) : Prop := e.attributes.Pairwise fun a b => ¬ sameText a.name b.name

/-- No two attributes have the same name, and each has values. -/
structure Tidy (e : Entry) : Prop where
  distinct : e.Distinct
  filled : ∀ a ∈ e.attributes, a.values ≠ []

/-! ### Different names -/

theorem Distinct.attribute? (h : e.Distinct) (ha : a ∈ e.attributes) (hn : sameText a.name name) :
    e.attribute? name = some a := by
  obtain ⟨front, back, he⟩ := List.append_of_mem ha
  refine attribute?_eq_some_iff.mpr ⟨front, back, he, fun x hx hsame => ?_, hn⟩
  rw [Distinct, he, List.pairwise_append] at h
  refine h.2.2 x hx a List.mem_cons_self (Text.sameText_iff.mpr ?_)
  exact (Text.sameText_iff.mp hsame).trans (Text.sameText_iff.mp hn).symm

/-- A table is one if it is so besides one attribute, and that attribute has values if it is there. -/
theorem tidy_iff (name : String) : e.Tidy ↔
    e.Distinct ∧ (∀ a ∈ e.besides name, a.values ≠ []) ∧ (e.hasAttribute name → e.values name ≠ []) := by
  constructor
  · rintro ⟨hd, hf⟩
    refine ⟨hd, fun a ha => hf a (List.mem_of_mem_filter ha), fun hname => ?_⟩
    obtain ⟨a, ha⟩ := Option.isSome_iff_exists.mp hname
    rw [values, ha]
    exact hf a (List.mem_of_find?_eq_some ha)
  · rintro ⟨hd, hf, hname⟩
    refine ⟨hd, fun a ha => ?_⟩
    by_cases hn : sameText a.name name
    · have hfind : e.attribute? name = some a := hd.attribute? ha hn
      have := hname (hasAttribute_of_some hfind)
      rwa [values, hfind] at this
    · exact hf a (List.mem_filter.mpr ⟨ha, by simpa using hn⟩)

theorem names_setValues (f : List (List UInt8) → List (List UInt8)) :
    (e.setValues name f).attributes.map (·.name) = e.attributes.map (·.name) := by
  simp only [setValues]
  induction e.attributes with
  | nil => rfl
  | cons a as ih =>
    rw [updateValues]
    split
    · rfl
    · rw [List.map_cons, List.map_cons, ih]

theorem Distinct.setValues (h : e.Distinct) (f : List (List UInt8) → List (List UInt8)) :
    (e.setValues name f).Distinct := by
  have hnames : ∀ e : Entry, e.Distinct ↔ (e.attributes.map (·.name)).Pairwise fun s t => ¬ sameText s t :=
    fun e => by rw [List.pairwise_map, Distinct]
  rw [hnames, names_setValues]
  exact (hnames e).mp h

theorem Distinct.eraseAttribute (h : e.Distinct) : (e.eraseAttribute name).Distinct := List.Pairwise.filter _ h

/-- An attribute that is not there may be put behind the others. -/
theorem Distinct.concat (h : e.Distinct) (hn : ¬ e.hasAttribute name) :
    Distinct { e with attributes := e.attributes ++ [⟨name, vs⟩] } := by
  have hnone : e.attribute? name = none := by simpa [hasAttribute] using hn
  refine List.pairwise_append.mpr ⟨h, List.pairwise_singleton _ _, fun a ha b hb => ?_⟩
  obtain rfl := List.mem_singleton.mp hb
  exact attribute?_eq_none_iff.mp hnone a ha

theorem not_hasAttribute_eraseAttribute : ¬ (e.eraseAttribute name).hasAttribute name := by
  simp [hasAttribute, attribute?_eraseAttribute, Text.sameText_iff]

theorem Distinct.replaceValues (h : e.Distinct) : (e.replaceValues name vs).Distinct := by
  unfold Entry.replaceValues
  dsimp only
  split
  · exact h.eraseAttribute
  · exact h.eraseAttribute.concat not_hasAttribute_eraseAttribute

theorem Distinct.withAttribute (h : e.Distinct) : (e.withAttribute name).Distinct := by
  unfold Entry.withAttribute
  split
  · exact h
  · exact h.concat ‹_›

theorem Distinct.withValue (h : e.Distinct) : (e.withValue name value).Distinct := by
  unfold Entry.withValue
  dsimp only
  split
  · exact h.withAttribute
  · exact h.withAttribute.setValues _

/-! ### The other attributes -/

theorem besides_setValues (f : List (List UInt8) → List (List UInt8)) :
    (e.setValues name f).besides name = e.besides name := by
  simp only [besides, setValues]
  induction e.attributes with
  | nil => rfl
  | cons a as ih =>
    rw [updateValues]
    by_cases ha : sameText a.name name
    · rw [if_pos ha, List.filter_cons_of_neg (by simp [ha]), List.filter_cons_of_neg (by simp [ha])]
    · rw [if_neg ha, List.filter_cons_of_pos (by simp [ha]), List.filter_cons_of_pos (by simp [ha]), ih]

theorem besides_eraseAttribute : (e.eraseAttribute name).besides name = e.besides name := by
  simp [besides, eraseAttribute]

theorem besides_withAttribute : (e.withAttribute name).besides name = e.besides name := by
  unfold withAttribute
  split
  · rfl
  · simp [besides, Text.sameText_iff]

theorem besides_withValue : (e.withValue name value).besides name = e.besides name := by
  unfold withValue
  dsimp only
  split
  · exact besides_withAttribute
  · rw [besides_setValues, besides_withAttribute]

/-! ### What changes leave -/

namespace Tidy

theorem rename (h : e.Tidy) (dn : String) : (e.rename dn).Tidy := ⟨h.distinct, h.filled⟩

theorem eraseAttribute (h : e.Tidy) : (e.eraseAttribute name).Tidy := by
  obtain ⟨hd, hf, -⟩ := (tidy_iff name).mp h
  refine (tidy_iff name).mpr ⟨hd.eraseAttribute, ?_, fun hn => absurd hn not_hasAttribute_eraseAttribute⟩
  rwa [besides_eraseAttribute]

theorem replaceValues (h : e.Tidy) : (e.replaceValues name vs).Tidy := by
  by_cases hvs : vs = []
  · rw [hvs]
    exact h.eraseAttribute
  · obtain ⟨hd, hf, -⟩ := (tidy_iff name).mp h
    refine (tidy_iff name).mpr ⟨hd.replaceValues, ?_, fun _ => ?_⟩
    · rwa [besides_replaceValues e hvs]
    · rwa [values_replaceValues, if_pos (Text.sameText_refl _)]

theorem withValue (h : e.Tidy) : (e.withValue name value).Tidy := by
  obtain ⟨hd, hf, -⟩ := (tidy_iff name).mp h
  refine (tidy_iff name).mpr ⟨hd.withValue, ?_, fun _ hnil => ?_⟩
  · rwa [besides_withValue]
  · -- the value that is added is there
    have hvalue : (e.withValue name value).hasValue name value :=
      hasValue_withValue.mpr (.inr ⟨Text.sameText_refl _, sameValue_refl _ _⟩)
    rw [hasValue, hnil] at hvalue
    cases hvalue

theorem withValues (h : e.Tidy) : (e.withValues name vs).Tidy :=
  List.foldlRecOn (motive := Tidy) vs _ h fun _ he _ _ => he.withValue

theorem withNaming (h : e.Tidy) (cs : List Dn.NameValue) : (e.withNaming cs).Tidy :=
  List.foldlRecOn (motive := Tidy) cs _ h fun _ he _ _ => he.withValue

theorem withoutValues (h : e.Tidy) : (e.withoutValues name vs).Tidy := by
  obtain ⟨hd, hf, -⟩ := (tidy_iff name).mp h
  unfold Entry.withoutValues
  dsimp only
  split
  · refine (tidy_iff name).mpr ⟨(hd.setValues _).eraseAttribute, ?_, fun hn => absurd hn not_hasAttribute_eraseAttribute⟩
    rwa [besides_eraseAttribute, besides_setValues]
  · rename_i hleft
    refine (tidy_iff name).mpr ⟨hd.setValues _, ?_, fun _ hnil => hleft (by simp [hnil])⟩
    rwa [besides_setValues]

/-- Values may be put in the place of others, if there are any. -/
theorem setValues (h : e.Tidy) (hvs : vs ≠ []) : (e.setValues name fun _ => vs).Tidy := by
  obtain ⟨hd, hf, -⟩ := (tidy_iff name).mp h
  refine (tidy_iff name).mpr ⟨hd.setValues _, ?_, fun hname => ?_⟩
  · rwa [besides_setValues]
  · rw [hasAttribute_setValues] at hname
    rwa [values_setValues hname, if_pos (Text.sameText_refl _)]

theorem changed {c : Change} {after : Entry} (h : e.Tidy) (hc : Edit.Changed e c after) : after.Tidy := by
  cases hc with
  | added => exact h.withValues
  | removed => exact h.withoutValues
  | replaced => exact h.replaceValues
  | incremented hdelta ha hraised =>
    refine h.setValues fun hnil => h.filled _ (List.mem_of_find?_eq_some ha) ?_
    rw [← List.length_eq_zero_iff, hraised.length_eq, hnil, List.length_nil]

end Tidy

theorem tidy_of_nil (dn : String) : Tidy { dn } := ⟨.nil, by simp⟩

end Entry

namespace Edit

theorem change_preserves_tidy (c : Change) (permissive : Bool) : Preserves Entry.Tidy (change c permissive) :=
  fun _ _ h hrun => h.changed (change_ok hrun)

theorem removeValues_preserves_tidy (name : String) (values : List (List UInt8)) (permissive : Bool) :
    Preserves Entry.Tidy (removeValues name values permissive) := by
  intro e after h hrun
  obtain rfl := removeValues_ok hrun
  exact h.withoutValues

theorem addNaming_preserves_tidy (cs : List Dn.NameValue) : Preserves Entry.Tidy (addNaming cs) := by
  intro e after h hrun
  rw [addNaming_run] at hrun
  cases hrun
  exact h.withNaming cs

end Edit

/-- An entry of given attributes has them as a table, however often their names are repeated. -/
theorem Entry.tidy_ofAttributes (dn : String) (attributes : List Attribute) : (ofAttributes dn attributes).Tidy := by
  rw [ofAttributes_eq]
  exact List.foldlRecOn (motive := Tidy) attributes _ (tidy_of_nil dn) fun _ he _ _ => he.withValues

end Ldap
