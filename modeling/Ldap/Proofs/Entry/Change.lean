import Ldap.Proofs.Entry.Increment
import Ldap.Proofs.Entry.Naming

/-! What a change leaves of an entry, if it succeeds. Values that are added stand behind those that were there, each
once. Of values that are removed one occurrence each is taken away, and an attribute without values is dropped.
Whether a change is permissive decides whether it succeeds, and nothing about what it leaves. -/

namespace Ldap

open Text (Spells sameText)

namespace Entry

variable {e : Entry} {name : String} {a : Attribute} {f g : List (List UInt8) → List (List UInt8)}

/-! ### Values that are changed -/

theorem hasAttribute_of_some (ha : e.attribute? name = some a) : e.hasAttribute name := by
  rw [hasAttribute, ha, Option.isSome_some]

theorem attribute?_eq_none_iff : e.attribute? name = none ↔ ∀ a ∈ e.attributes, ¬ sameText a.name name :=
  List.find?_eq_none

theorem setValues_eq_self (h : f (e.values name) = e.values name) : e.setValues name f = e := by
  cases ha : e.attribute? name with
  | none =>
    have hupdate : ∀ as : List Attribute, (∀ a ∈ as, ¬ sameText a.name name) → updateValues name f as = as := by
      intro as has
      induction as with
      | nil => rfl
      | cons a as ih =>
        rw [updateValues, if_neg (has a List.mem_cons_self), ih fun b hb => has b (List.mem_cons_of_mem _ hb)]
    rw [setValues, hupdate _ (attribute?_eq_none_iff.mp ha)]
  | some a =>
    obtain ⟨front, back, he, hf, hname⟩ := attribute?_eq_some_iff.mp ha
    rw [values, ha] at h
    rw [setValues_of_append he hf hname, show f a.values = a.values from h, ← he]

theorem setValues_setValues : (e.setValues name f).setValues name g = e.setValues name fun vs => g (f vs) := by
  simp only [setValues]
  congr 1
  induction e.attributes with
  | nil => rfl
  | cons a as ih =>
    by_cases ha : sameText a.name name
    · simp only [updateValues, if_pos ha]
    · simp only [updateValues, if_neg ha, ih]

theorem eraseAttribute_eq_self (h : ¬ e.hasAttribute name) : e.eraseAttribute name = e := by
  have hnone : e.attribute? name = none := by simpa [hasAttribute] using h
  have hkept : e.attributes.filter (fun a => !sameText a.name name) = e.attributes := by
    rw [List.filter_eq_self]
    intro a ha
    simpa using attribute?_eq_none_iff.mp hnone a ha
  rw [eraseAttribute, hkept]

theorem hasAttribute_setValues {other : String} : (e.setValues name f).hasAttribute other = e.hasAttribute other := by
  rw [hasAttribute, hasAttribute, attribute?_setValues]
  split
  · rw [Option.isSome_map]
  · rfl

theorem withAttribute_eq_self (ha : e.hasAttribute name) : e.withAttribute name = e := if_pos ha

theorem hasAttribute_withValue (value : List UInt8) : (e.withValue name value).hasAttribute name := by
  unfold withValue
  dsimp only
  split
  · exact hasAttribute_withAttribute
  · rw [hasAttribute_setValues]
    exact hasAttribute_withAttribute

theorem withValue_withAttribute (value : List UInt8) :
    (e.withAttribute name).withValue name value = e.withValue name value := by
  rw [withValue, withAttribute_eq_self hasAttribute_withAttribute]
  rfl

/-- The entry with further values. -/
def withValues (e : Entry) (name : String) (values : List (List UInt8)) : Entry :=
  values.foldl (fun e value => e.withValue name value) e

theorem withValues_withAttribute {values : List (List UInt8)} (hne : values ≠ []) :
    (e.withAttribute name).withValues name values = e.withValues name values := by
  obtain ⟨value, rest, rfl⟩ := List.exists_cons_of_ne_nil hne
  rw [withValues, withValues, List.foldl_cons, List.foldl_cons, withValue_withAttribute]

/-- Values without one occurrence of each of some others. -/
def dropEach (name : String) (values : List (List UInt8)) (vs : List (List UInt8)) : List (List UInt8) :=
  values.foldl (fun vs value => vs.eraseP fun v => sameValue name v value) vs

theorem dropEach_nil (name : String) (values : List (List UInt8)) : dropEach name values [] = [] := by
  induction values with
  | nil => rfl
  | cons value values ih => exact ih

/-- The entry without some values, or without the attribute if none are given or none are left. -/
def withoutValues (e : Entry) (name : String) (values : List (List UInt8)) : Entry :=
  let left := e.setValues name (dropEach name values)
  if values.isEmpty || (left.values name).isEmpty then left.eraseAttribute name else left

end Entry

namespace Edit

variable {e after : Entry} {name : String} {permissive : Bool} {value : List UInt8} {values : List (List UInt8)}

/-! ### Values that are added -/

theorem addValue_ok (ha : e.hasAttribute name) (h : (addValue name permissive value).run e = .ok () after) :
    after = e.withValue name value := by
  have hrun : (addValue name permissive value).run e = EStateM.run (if e.hasValue name value then
      if permissive then pure () else throw (.valueExists name)
      else modify (·.setValues name (· ++ [value])) : Edit) e := rfl
  rw [hrun] at h
  rw [Entry.withValue, Entry.withAttribute_eq_self ha]
  by_cases hv : e.hasValue name value = true
  · rw [if_pos hv] at h ⊢
    cases permissive with
    | false => cases h
    | true => cases h; rfl
  · rw [if_neg hv] at h ⊢
    cases h
    rfl

theorem forM_addValue_ok (ha : e.hasAttribute name)
    (h : (values.forM (addValue name permissive)).run e = .ok () after) : after = e.withValues name values := by
  induction values generalizing e with
  | nil =>
    cases h
    rfl
  | cons value values ih =>
    obtain ⟨⟨⟩, x, hx, hafter⟩ := run_bind_eq_ok_iff.mp h
    obtain rfl := addValue_ok ha hx
    exact ih (Entry.hasAttribute_withValue value) hafter

theorem addValues_ok (h : (addValues name values permissive).run e = .ok () after) :
    values ≠ [] ∧ after = e.withValues name values := by
  cases values with
  | nil => cases h
  | cons value rest =>
    have hne : value :: rest ≠ [] := List.cons_ne_nil value rest
    have hforM : ((value :: rest).forM (addValue name permissive)).run (e.withAttribute name) = .ok () after := h
    have hafter := forM_addValue_ok Entry.hasAttribute_withAttribute hforM
    exact ⟨hne, hafter.trans (Entry.withValues_withAttribute hne)⟩

/-- To add values, permissively, fails only if there are none. -/
theorem forM_addValue_run (ha : e.hasAttribute name) (values : List (List UInt8)) :
    (values.forM (addValue name true)).run e = .ok () (e.withValues name values) := by
  induction values generalizing e with
  | nil => rfl
  | cons value values ih =>
    have hvalue : (addValue name true value).run e = .ok () (e.withValue name value) := by
      rw [addValue_run, Entry.withValue, Entry.withAttribute_eq_self ha]
    exact (run_bind_ok hvalue).trans (ih (Entry.hasAttribute_withValue value))

/-! ### Values that are removed -/

theorem removeValue_ok (h : (removeValue name permissive value).run e = .ok () after) :
    after = e.setValues name (Entry.dropEach name [value]) := by
  have hrun : (removeValue name permissive value).run e = EStateM.run (if e.hasValue name value then
      modify (·.setValues name (Entry.dropEach name [value]))
      else if permissive then pure () else throw (.valueMissing name) : Edit) e := rfl
  rw [hrun] at h
  by_cases hv : e.hasValue name value = true
  · rw [if_pos hv] at h
    cases h
    rfl
  · have hself : e.setValues name (Entry.dropEach name [value]) = e := by
      refine Entry.setValues_eq_self (List.eraseP_of_forall_not fun v hmem => ?_)
      exact fun hsame => hv (List.any_eq_true.mpr ⟨v, hmem, hsame⟩)
    rw [if_neg hv] at h
    rw [hself]
    cases permissive with
    | false => cases h
    | true => cases h; rfl

theorem forM_removeValue_ok (h : (values.forM (removeValue name permissive)).run e = .ok () after) :
    after = e.setValues name (Entry.dropEach name values) := by
  induction values generalizing e with
  | nil =>
    cases h
    exact (Entry.setValues_eq_self rfl).symm
  | cons value values ih =>
    obtain ⟨⟨⟩, x, hx, hafter⟩ := run_bind_eq_ok_iff.mp h
    obtain rfl := removeValue_ok hx
    rw [ih hafter, Entry.setValues_setValues]
    rfl

theorem removeValues_ok (h : (removeValues name values permissive).run e = .ok () after) :
    after = e.withoutValues name values := by
  have hrun : (removeValues name values permissive).run e = EStateM.run (if e.hasAttribute name then (do
      values.forM (removeValue name permissive)
      if values.isEmpty || ((← get).values name).isEmpty then modify (·.eraseAttribute name))
      else if permissive then pure () else throw (.valueMissing name) : Edit) e := rfl
  rw [hrun] at h
  by_cases ha : e.hasAttribute name = true
  · rw [if_pos ha] at h
    obtain ⟨⟨⟩, left, hleft, hafter⟩ := run_bind_eq_ok_iff.mp h
    have hprune : EStateM.run (if values.isEmpty || (left.values name).isEmpty then modify (·.eraseAttribute name)
        else pure () : Edit) left = .ok () after := hafter
    rw [Entry.withoutValues, ← forM_removeValue_ok hleft]
    split at hprune
    · cases hprune
      rw [if_pos ‹_›]
    · cases hprune
      rw [if_neg ‹_›]
  · rw [if_neg ha] at h
    obtain rfl : e = after := by
      cases permissive with
      | false => cases h
      | true => cases h; rfl
    have hnone : e.attribute? name = none := by simpa [Entry.hasAttribute] using ha
    have hvalues : e.values name = [] := by rw [Entry.values, hnone, Option.map_none, Option.getD_none]
    have hdrop : e.setValues name (Entry.dropEach name values) = e :=
      Entry.setValues_eq_self (by rw [hvalues, Entry.dropEach_nil])
    rw [Entry.withoutValues, hdrop, hvalues, if_pos (by simp), Entry.eraseAttribute_eq_self ha]

/-! ### Changes -/

/-- What a change that succeeds leaves of an entry. -/
inductive Changed (e : Entry) : Change → Entry → Prop
  | added {name : String} {values : List (List UInt8)} (hne : values ≠ []) :
    Changed e ⟨.add, name, values⟩ (e.withValues name values)
  | removed {name : String} {values : List (List UInt8)} :
    Changed e ⟨.delete, name, values⟩ (e.withoutValues name values)
  | replaced {name : String} {values : List (List UInt8)} :
    Changed e ⟨.replace, name, values⟩ (e.replaceValues name values)
  | incremented {name : String} {values raised : List (List UInt8)} {delta : Int64} {a : Attribute}
    (hdelta : incrementOf? values = some delta) (ha : e.attribute? name = some a)
    (hraised : List.Forall₂ (Raised delta.toInt) a.values raised) :
    Changed e ⟨.increment, name, values⟩ (e.setValues name fun _ => raised)

theorem change_ok {c : Change} (h : (change c permissive).run e = .ok () after) : Changed e c after := by
  obtain ⟨kind, name, values⟩ := c
  cases kind with
  | add =>
    obtain ⟨hne, rfl⟩ := addValues_ok h
    exact .added hne
  | delete =>
    obtain rfl := removeValues_ok h
    exact .removed
  | replace =>
    obtain rfl : e.replaceValues name values = after := by
      cases h
      rfl
    exact .replaced
  | increment =>
    obtain ⟨delta, a, raised, hdelta, ha, hraised, rfl⟩ := increment_run_iff.mp h
    exact .incremented hdelta ha hraised

end Edit

/-- The values of given attributes are added one after the other. -/
theorem Entry.ofAttributes_eq (dn : String) (attributes : List Attribute) :
    ofAttributes dn attributes = attributes.foldl (fun e a => e.withValues a.name a.values) { dn } := by
  unfold ofAttributes
  congr 1
  funext e a
  obtain ⟨name, values⟩ := a
  cases values with
  | nil => rfl
  | cons value rest =>
    have hrun : (Edit.addValues name (value :: rest) true).run e =
        ((value :: rest).forM (Edit.addValue name true)).run (e.withAttribute name) := rfl
    rw [hrun, Edit.forM_addValue_run hasAttribute_withAttribute]
    exact withValues_withAttribute (List.cons_ne_nil value rest)

end Ldap
