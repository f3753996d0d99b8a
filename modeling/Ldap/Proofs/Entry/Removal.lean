import Ldap.Proofs.Entry.Change
import Mathlib.Data.List.Count
import Mathlib.Data.List.Nodup

/-! Values that are removed. One occurrence is taken away for each time that a value is named, so that values which are
the same, as entries are compared, have to be named as often as they occur. They are gone at once if no two of them are
the same. An entry is made so and additions keep it so, for they pass over values that are there, and removals keep it
so as well. A replacement stores the values that it is given, and an increment may bring forms of one number together:
these two keep it so just if the values and the numbers are different. -/

namespace Ldap

open Text (numberOf? decimal sameText)

namespace Entry

variable {e after : Entry} {name other : String} {value : List UInt8} {values vs : List (List UInt8)}

/-- How often a value occurs, as entries are compared. -/
def times (name : String) (value : List UInt8) (vs : List (List UInt8)) : Nat :=
  vs.countP fun v => sameValue name v value

/-- No two values are the same. -/
def Differ (name : String) (vs : List (List UInt8)) : Prop := vs.Pairwise fun v w => ¬ sameValue name v w

instance (name : String) (vs : List (List UInt8)) : Decidable (Differ name vs) :=
  inferInstanceAs (Decidable (vs.Pairwise _))

/-- No attribute has two values that are the same. -/
def Apart (e : Entry) : Prop := ∀ name, Differ name (e.values name)

/-- A change that succeeds gives no attribute two values that are the same, where none had. -/
def Separates (e : Entry) (c : Change) : Prop :=
  match c.kind with
  | .add | .delete => True
  | .replace => Differ c.target.name c.target.values
  | .increment => ((e.values c.target.name).map numberOf?).Nodup

instance (e : Entry) (c : Change) : Decidable (e.Separates c) :=
  match c with
  | ⟨.add, _⟩ | ⟨.delete, _⟩ => inferInstanceAs (Decidable True)
  | ⟨.replace, target⟩ => inferInstanceAs (Decidable (Differ target.name target.values))
  | ⟨.increment, target⟩ => inferInstanceAs (Decidable ((e.values target.name).map numberOf?).Nodup)

/-- All changes up to the first that fails separate the values. -/
def SeparateAll : Entry → List (Change × Bool) → Prop
  | _, [] => True
  | e, c :: rest =>
    match (Edit.change c.1 c.2).apply e with
    | .ok after => e.Separates c.1 ∧ SeparateAll after rest
    | .error _ => True

instance decidableSeparateAll : (e : Entry) → (cs : List (Change × Bool)) → Decidable (e.SeparateAll cs)
  | _, [] => inferInstanceAs (Decidable True)
  | e, c :: rest =>
    match h : (Edit.change c.1 c.2).apply e with
    | .ok after =>
      have := decidableSeparateAll after rest
      decidable_of_iff (e.Separates c.1 ∧ after.SeparateAll rest) (by rw [SeparateAll, h])
    | .error _ => isTrue (by rw [SeparateAll, h]; trivial)

/-- Whatever values are removed, they are gone. -/
def Removes (e : Entry) : Prop :=
  ∀ name values permissive after, values ≠ [] →
    (Edit.change ⟨.delete, name, values⟩ permissive).apply e = .ok after →
    ∀ value ∈ values, ¬ after.hasValue name value

/-! ### What values are compared by -/

theorem differ_iff : Differ name vs ↔ (vs.map (comparand name)).Nodup := by
  rw [Differ, List.Nodup, List.pairwise_map]
  simp only [sameValue_iff, ne_eq]

theorem differ_congr (h : sameText name other) : Differ name vs ↔ Differ other vs := by
  rw [differ_iff, differ_iff, comparand_congr h]

theorem times_eq_count : times name value vs = (vs.map (comparand name)).count (comparand name value) := by
  rw [times, List.count, List.countP_map]
  refine List.countP_congr fun v _ => ?_
  simp [sameValue_iff]

theorem hasAttribute_of_hasValue (h : e.hasValue name value) : e.hasAttribute name := by
  cases ha : e.attribute? name with
  | none => simp [hasValue, values, ha] at h
  | some a => exact hasAttribute_of_some ha

theorem hasValue_iff_times : e.hasValue name value ↔ 0 < times name value (e.values name) := by
  rw [times_eq_count, List.count_pos_iff, List.mem_map, hasValue_iff]

theorem map_dropEach :
    (dropEach name values vs).map (comparand name) = (vs.map (comparand name)).diff (values.map (comparand name)) := by
  induction values generalizing vs with
  | nil => rfl
  | cons value values ih =>
    have hdrop : dropEach name (value :: values) vs = dropEach name values (vs.eraseP fun v => sameValue name v value) :=
      rfl
    have herase : (vs.eraseP fun v => sameValue name v value).map (comparand name) =
        (vs.map (comparand name)).erase (comparand name value) := by
      rw [List.erase_eq_eraseP', List.eraseP_map]
      congr 2
      funext v
      rw [Bool.eq_iff_iff, sameValue_iff]
      simp
    rw [hdrop, ih, herase, List.map_cons, List.diff_cons]

/-- Each time that a value is named, one occurrence of it is dropped. -/
theorem times_dropEach : times name value (dropEach name values vs) = times name value vs - times name value values := by
  rw [times_eq_count, map_dropEach, List.count_diff, ← times_eq_count, ← times_eq_count]

/-! ### Values that are removed -/

theorem values_setValues_of_nil {f : List (List UInt8) → List (List UInt8)} (hf : f [] = []) :
    (e.setValues name f).values other = if sameText name other then f (e.values other) else e.values other := by
  rw [values, attribute?_setValues]
  split
  · cases ha : e.attribute? other with
    | none => simp [values, ha, hf]
    | some a => simp [values, ha]
  · rfl

theorem values_withoutValues : (e.withoutValues name values).values other =
    if sameText name other then if values.isEmpty then [] else dropEach name values (e.values other)
    else e.values other := by
  have hleft (other : String) : (e.setValues name (dropEach name values)).values other =
      if sameText name other then dropEach name values (e.values other) else e.values other :=
    values_setValues_of_nil (dropEach_nil name values)
  unfold withoutValues
  dsimp only
  by_cases hsame : sameText name other
  · rw [← values_congr hsame, ← values_congr hsame, if_pos hsame]
    split
    · rename_i hnone
      rw [Entry.values, attribute?_eraseAttribute, if_pos (Text.sameText_refl _)]
      split
      · rfl
      · -- the attribute is dropped since no value is left
        rename_i hne
        have hnil : (e.setValues name (dropEach name values)).values name = [] := by simpa [hne] using hnone
        rw [hleft, if_pos (Text.sameText_refl _)] at hnil
        exact hnil.symm
    · rename_i hsome
      rw [hleft, if_pos (Text.sameText_refl _), if_neg fun hnil => hsome (by simp [hnil])]
  · rw [if_neg hsame]
    split
    · rw [Entry.values, attribute?_eraseAttribute, if_neg hsame]
      exact (hleft other).trans (if_neg hsame)
    · exact (hleft other).trans (if_neg hsame)

theorem hasValue_withoutValues (hne : values ≠ []) : (e.withoutValues name values).hasValue name value ↔
    times name value values < times name value (e.values name) := by
  have hnil : ¬ values.isEmpty := by simpa using hne
  rw [hasValue_iff_times, values_withoutValues, if_pos (Text.sameText_refl _), if_neg hnil, times_dropEach,
    Nat.sub_pos_iff_lt]

theorem dropEach_sublist : (dropEach name values vs).Sublist vs := by
  induction values generalizing vs with
  | nil => exact List.Sublist.refl vs
  | cons value values ih => exact ih.trans List.eraseP_sublist

/-! ### Changes that keep values apart -/

theorem Apart.withValue (h : e.Apart) : (e.withValue name value).Apart := by
  intro other
  unfold Entry.withValue
  dsimp only
  split
  · rw [values_withAttribute]
    exact h other
  · rename_i hnot
    rw [values_setValues hasAttribute_withAttribute, values_withAttribute]
    split
    · rename_i hsame
      refine List.pairwise_append.mpr ⟨h other, List.pairwise_singleton _ _, fun v hv w hw heq => hnot ?_⟩
      obtain rfl := List.mem_singleton.mp hw
      rw [sameValue_iff, ← comparand_congr hsame] at heq
      rw [hasValue_iff, values_withAttribute, values_congr hsame]
      exact ⟨v, hv, heq⟩
    · exact h other

theorem Apart.withValues (h : e.Apart) : (e.withValues name values).Apart :=
  List.foldlRecOn (motive := Apart) values _ h fun _ he _ _ => he.withValue

theorem Apart.withoutValues (h : e.Apart) : (e.withoutValues name values).Apart := by
  intro other
  rw [values_withoutValues]
  split
  · split
    · exact .nil
    · exact (h other).sublist dropEach_sublist
  · exact h other

theorem apart_ofAttributes (dn : String) (attributes : List Attribute) : (ofAttributes dn attributes).Apart := by
  rw [ofAttributes_eq]
  have hempty : Apart { dn } := fun _ => .nil
  exact List.foldlRecOn (motive := Apart) attributes _ hempty fun _ he _ _ => he.withValues

/-- If one attribute gets other values, it is these that have to differ. -/
theorem Apart.values_iff (h : e.Apart)
    (hvalues : ∀ other, after.values other = if sameText name other then vs else e.values other) :
    after.Apart ↔ Differ name vs := by
  constructor
  · intro ha
    have hname := ha name
    rwa [hvalues, if_pos (Text.sameText_refl _)] at hname
  · intro hvs other
    rw [hvalues]
    split
    · rename_i hsame
      exact (differ_congr hsame).mp hvs
    · exact h other

end Entry

namespace Edit

variable {e after : Entry} {name : String} {vs raised : List (List UInt8)} {delta : Int64}

/-- Decimal forms are compared as they are, whatever the attribute. -/
theorem comparand_decimal (name : String) (z : Int) : comparand name (decimal z) = decimal z := by
  unfold comparand
  split
  · rfl
  · exact Text.lowerBytes_decimal z

/-- Values are brought together by an increment just if they are forms of one number. -/
theorem differ_raised_iff (h : List.Forall₂ (Raised delta.toInt) vs raised) :
    Entry.Differ name raised ↔ (vs.map numberOf?).Nodup := by
  have hnumbers : ∃ ns : List Int64, vs.map numberOf? = ns.map some ∧
      raised.map (comparand name) = ns.map fun n => decimal (n + delta).toInt := by
    induction h with
    | nil => exact ⟨[], rfl, rfl⟩
    | cons hv _ ih =>
      obtain ⟨n, hn, rfl⟩ := raised_iff.mp hv
      obtain ⟨ns, hns, hraised⟩ := ih
      refine ⟨n :: ns, ?_, ?_⟩
      · rw [List.map_cons, hn, hns, List.map_cons]
      · rw [List.map_cons, comparand_decimal, hraised, List.map_cons]
  obtain ⟨ns, hns, hraised⟩ := hnumbers
  have hinj : Function.Injective fun n : Int64 => decimal (n + delta).toInt := by
    intro n m hnm
    have hsum : n + delta = m + delta := Int64.toInt_inj.mp (Text.decimal_inj.mp hnm)
    exact (Int64.add_left_inj delta).mp hsum
  rw [Entry.differ_iff, hraised, hns, List.nodup_map_iff hinj, List.nodup_map_iff (Option.some_injective _)]

theorem Changed.apart_iff {c : Change} (hc : Changed e c after) (h : e.Apart) : after.Apart ↔ e.Separates c := by
  cases hc with
  | added => exact iff_of_true h.withValues trivial
  | removed => exact iff_of_true h.withoutValues trivial
  | replaced => exact h.values_iff fun other => e.values_replaceValues _ other _
  | @incremented name _ raised _ a _ ha hraised =>
    have hname : e.hasAttribute name := Entry.hasAttribute_of_some ha
    rw [h.values_iff fun other => Entry.values_setValues hname _, differ_raised_iff hraised, Entry.Separates,
      Entry.values, ha]
    rfl

/-- Changes, each with whether it is permissive. -/
def changes (cs : List (Change × Bool)) : Edit := cs.forM fun c => change c.1 c.2

theorem apply_changes_cons {c : Change × Bool} {cs : List (Change × Bool)} : (changes (c :: cs)).apply e = .ok after ↔
    ∃ x, (change c.1 c.2).apply e = .ok x ∧ (changes cs).apply x = .ok after := by
  simp only [apply_eq_ok_iff]
  refine run_bind_eq_ok_iff.trans ⟨?_, ?_⟩
  · rintro ⟨⟨⟩, x, hx, hafter⟩
    exact ⟨x, hx, hafter⟩
  · rintro ⟨x, hx, hafter⟩
    exact ⟨⟨⟩, x, hx, hafter⟩

/-- A value that is there can be removed. -/
theorem apply_removeValue (h : e.hasValue name value) :
    (change ⟨.delete, name, [value]⟩ false).apply e = .ok (e.withoutValues name [value]) := by
  have hname : e.hasAttribute name := Entry.hasAttribute_of_hasValue h
  let left := e.setValues name (Entry.dropEach name [value])
  have hvalue : (removeValue name false value).run e = .ok () left := by
    simp only [removeValue, EStateM.run_bind, EStateM.run_get, h, if_pos]
    rfl
  have hvalues : ([value].forM (removeValue name false)).run e = .ok () left := run_bind_ok hvalue
  have hsome : ∃ after, (removeValues name [value] false).run e = .ok () after := by
    simp only [removeValues, EStateM.run_bind, EStateM.run_get, hname, if_pos, hvalues]
    split
    · exact ⟨_, rfl⟩
    · exact ⟨_, rfl⟩
  obtain ⟨after, hafter⟩ := hsome
  rw [apply_eq_ok_iff, ← removeValues_ok hafter]
  exact hafter

end Edit

namespace Entry

variable {e : Entry} {cs : List (Change × Bool)}

/-- Values are gone when they are removed just if no two were the same. -/
theorem removes_iff : e.Removes ↔ e.Apart := by
  constructor
  · intro h name
    rw [differ_iff, List.nodup_iff_count_le_one]
    intro x
    by_cases hx : x ∈ (e.values name).map (comparand name)
    · obtain ⟨value, hmem, rfl⟩ := List.mem_map.mp hx
      have hvalue : e.hasValue name value := hasValue_iff.mpr ⟨value, hmem, rfl⟩
      have hne : [value] ≠ [] := List.cons_ne_nil value []
      have hgone := h name [value] false _ hne (Edit.apply_removeValue hvalue) value List.mem_cons_self
      rw [hasValue_withoutValues hne, Nat.not_lt] at hgone
      rw [← times_eq_count]
      exact hgone.trans List.countP_le_length
    · rw [List.count_eq_zero_of_not_mem hx]
      exact Nat.zero_le 1
  · intro h name values permissive after hne hafter value hmem
    obtain rfl := Edit.removeValues_ok (Edit.apply_eq_ok_iff.mp hafter)
    rw [hasValue_withoutValues hne, Nat.not_lt]
    have hnamed : 0 < times name value values :=
      List.countP_pos_iff.mpr ⟨value, hmem, sameValue_refl _ _⟩
    have honce : times name value (e.values name) ≤ 1 := by
      rw [times_eq_count]
      exact List.nodup_iff_count_le_one.mp (differ_iff.mp (h name)) _
    exact honce.trans hnamed

/-- The entries that changes pass through are the first one and those that the rest of the changes pass through. -/
theorem forall_passed_cons {P : Entry → Prop} {c : Change × Bool} :
    (∀ front x, front <+: c :: cs → (Edit.changes front).apply e = .ok x → P x) ↔
      P e ∧ ∀ y, (Edit.change c.1 c.2).apply e = .ok y →
        ∀ front x, front <+: cs → (Edit.changes front).apply y = .ok x → P x := by
  constructor
  · intro h
    refine ⟨h [] e List.nil_prefix rfl, fun y hy front x hfront hx => ?_⟩
    exact h (c :: front) x ((List.prefix_cons_inj c).mpr hfront) (Edit.apply_changes_cons.mpr ⟨y, hy, hx⟩)
  · rintro ⟨he, h⟩ front x hfront hx
    rcases List.prefix_cons_iff.mp hfront with rfl | ⟨rest, rfl, hrest⟩
    · cases hx
      exact he
    · obtain ⟨y, hy, hx⟩ := Edit.apply_changes_cons.mp hx
      exact h y hy rest x hrest hx

/-- All entries that changes pass through are without values that are the same just if the changes separate them. -/
theorem Apart.changes_iff (h : e.Apart) :
    (∀ front x, front <+: cs → (Edit.changes front).apply e = .ok x → x.Apart) ↔ e.SeparateAll cs := by
  induction cs generalizing e with
  | nil =>
    refine iff_of_true (fun front x hfront hx => ?_) trivial
    obtain rfl := List.prefix_nil.mp hfront
    cases hx
    exact h
  | cons c cs ih =>
    rw [forall_passed_cons, SeparateAll, and_iff_right h]
    cases hc : (Edit.change c.1 c.2).apply e with
    | error f => exact iff_of_true nofun trivial
    | ok after =>
      have hstep := (Edit.change_ok (Edit.apply_eq_ok_iff.mp hc)).apart_iff h
      simp only [Except.ok.injEq, forall_eq']
      rw [← hstep]
      constructor
      · intro hall
        have hafter : after.Apart := hall [] after List.nil_prefix rfl
        exact ⟨hafter, (ih hafter).mp hall⟩
      · rintro ⟨hafter, hrest⟩
        exact (ih hafter).mpr hrest

/-- Values that are removed are gone all along a sequence of changes just if the replacements among them give
different values and the increments meet different numbers. A value is left, whatever the changes, just if it is named
less often than it occurs. -/
theorem removes_run_iff (dn : String) (attributes : List Attribute) (cs : List (Change × Bool)) :
    ((∀ front x, front <+: cs → (Edit.changes front).apply (.ofAttributes dn attributes) = .ok x → x.Removes) ↔
      SeparateAll (.ofAttributes dn attributes) cs) ∧
    ∀ e, (Edit.changes cs).apply (.ofAttributes dn attributes) = .ok e →
      ∀ name values permissive after, values ≠ [] →
        (Edit.change ⟨.delete, name, values⟩ permissive).apply e = .ok after →
        ∀ value, after.hasValue name value ↔ times name value values < times name value (e.values name) := by
  constructor
  · simp only [removes_iff]
    exact (apart_ofAttributes dn attributes).changes_iff
  · intro e _ name values permissive after hne hafter value
    obtain rfl := Edit.removeValues_ok (Edit.apply_eq_ok_iff.mp hafter)
    exact hasValue_withoutValues hne

theorem removes_run_iff_people :
    let attributes : List Attribute := [⟨"n", [[49], [48, 49], [48]]⟩]
    let cs : List (Change × Bool) := [(⟨.replace, "sn", [[65], [98]]⟩, false), (⟨.delete, "N", [[49]]⟩, false),
      (⟨.increment, "n", [[49]]⟩, false)]
    let e : Entry := ⟨"cn=a", [⟨"n", [[50], [49]]⟩, ⟨"sn", [[65], [98]]⟩]⟩
    let after : Entry := ⟨"cn=a", [⟨"n", [[50], [49]]⟩, ⟨"sn", [[98]]⟩]⟩
    SeparateAll (.ofAttributes "cn=a" attributes) cs ∧
      (Edit.changes cs).apply (.ofAttributes "cn=a" attributes) = .ok e ∧ e.Removes ∧
      (Edit.change ⟨.delete, "SN", [[97]]⟩ false).apply e = .ok after ∧ ¬ after.hasValue "SN" [97] ∧
      after.hasValue "SN" [66] := by
  intro attributes cs e after
  have hall : SeparateAll (.ofAttributes "cn=a" attributes) cs := by decide +kernel
  have he : (Edit.changes cs).apply (.ofAttributes "cn=a" attributes) = .ok e := by decide +kernel
  have hafter : (Edit.change ⟨.delete, "SN", [[97]]⟩ false).apply e = .ok after := by decide +kernel
  obtain ⟨hiff, htimes⟩ := removes_run_iff "cn=a" attributes cs
  have hremoves : e.Removes := hiff.mpr hall cs e (List.prefix_refl cs) he
  have hgone := hremoves "SN" [[97]] false after (List.cons_ne_nil _ _) hafter [97] List.mem_cons_self
  have hleft := htimes e he "SN" [[97]] false after (List.cons_ne_nil _ _) hafter [66]
  exact ⟨hall, he, hremoves, hafter, hgone, hleft.mpr (by decide +kernel)⟩

/-- Of two values that are the same and stored by a replacement, or made so by an increment, one is left. -/
theorem not_removes_run :
    let names : Entry := ⟨"cn=a", [⟨"sn", [[65], [97]]⟩]⟩
    let name : Entry := ⟨"cn=a", [⟨"sn", [[97]]⟩]⟩
    let numbers : Entry := ⟨"cn=a", [⟨"n", [[49], [49]]⟩]⟩
    let number : Entry := ⟨"cn=a", [⟨"n", [[49]]⟩]⟩
    (Edit.changes [(⟨.replace, "sn", [[65], [97]]⟩, false)]).apply (.ofAttributes "cn=a" []) = .ok names ∧
      (Edit.change ⟨.delete, "sn", [[97]]⟩ false).apply names = .ok name ∧ name.hasValue "sn" [97] ∧
      (Edit.changes [(⟨.increment, "n", [[48]]⟩, false)]).apply (.ofAttributes "cn=a" [⟨"n", [[49], [48, 49]]⟩]) =
        .ok numbers ∧
      (Edit.change ⟨.delete, "n", [[49]]⟩ false).apply numbers = .ok number ∧ number.hasValue "n" [49] := by
  decide +kernel

end Entry

end Ldap
