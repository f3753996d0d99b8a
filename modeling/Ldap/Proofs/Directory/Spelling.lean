import Ldap.Proofs.Directory.Naming

/-! Two spellings of a name that have the same key and as many relative names. What is looked up, removed and compared
under them is the same, and so are the passwords that are accepted. Editing an entry looks for the values that the name
in the request begins with, as it is spelled there, and so the spellings are alike just if these values are. -/

namespace Ldap

namespace Directory

variable {d : Directory} {a b : String}

/-- The names begin with the same values. -/
def SameNaming (a b : String) : Prop :=
  Dn.Covers (Dn.naming a) (Dn.naming b) ∧ Dn.Covers (Dn.naming b) (Dn.naming a)

instance (a b : String) : Decidable (SameNaming a b) := inferInstanceAs (Decidable (_ ∧ _))

theorem contains_of_require {e : Entry} (h : d.require a = .ok e) : d.store.contains a := by
  obtain ⟨he, hk⟩ := require_ok h
  exact Store.contains_iff.mpr ⟨e, he, hk⟩

theorem checkNaming_cases (dn : String) (e : Entry) :
    e.HasNaming (Dn.naming dn) ∧ checkNaming dn e = .ok () ∨
      ¬ e.HasNaming (Dn.naming dn) ∧ ∃ f, checkNaming dn e = .error f ∧ f.code = .notAllowedOnRdn := by
  by_cases hn : e.HasNaming (Dn.naming dn)
  · exact .inl ⟨hn, checkNaming_eq_ok_iff.mpr hn⟩
  · refine .inr ⟨hn, ?_⟩
    have hne : checkNaming dn e ≠ .ok () := mt checkNaming_eq_ok_iff.mp hn
    unfold checkNaming at hne ⊢
    dsimp only at hne ⊢
    split
    · exact ⟨_, rfl, rfl⟩
    · rename_i hnone
      simp [hnone] at hne

section Spellings

variable (hk : Dn.normalize a = Dn.normalize b)
include hk

theorem store_get?_congr : d.store.get? a = d.store.get? b := by
  rw [Store.get?, Store.get?, hk]

/-- The entry of a name is required under either spelling, and missed with the same code. -/
theorem require_cases : (∃ e, d.require a = .ok e ∧ d.require b = .ok e) ∨
    ¬ d.store.contains a ∧ ∃ f g, d.require a = .error f ∧ d.require b = .error g ∧ f.code = g.code := by
  have hget : d.store.get? a = d.store.get? b := store_get?_congr hk
  rw [Directory.require, Directory.require, ← hget, Store.contains]
  cases d.store.get? a with
  | some e => exact .inl ⟨e, rfl, rfl⟩
  | none => exact .inr ⟨by simp, _, _, rfl, rfl, rfl⟩

theorem delete_alike (subtree noOp : Bool) :
    (d.delete a subtree noOp).mapError Failure.code = (d.delete b subtree noOp).mapError Failure.code := by
  have hsubtree : d.store.subtree a = d.store.subtree b := by rw [Store.subtree, Store.subtree, hk]
  unfold delete
  rw [hsubtree]
  rcases require_cases (d := d) hk with ⟨e, ha, hb⟩ | ⟨-, f, g, ha, hb, hfg⟩
  · rw [ha, hb, Except.ok_bind, Except.ok_bind]
    dsimp only
    split <;> rfl
  · rw [ha, hb]
    exact congrArg Except.error hfg

theorem checkPassword_alike (password : List UInt8) : d.checkPassword a password = d.checkPassword b password := by
  rw [checkPassword, checkPassword, hk, store_get?_congr hk]

theorem hasIdentity_alike : d.hasIdentity a = d.hasIdentity b := by
  rw [hasIdentity, hasIdentity, hk, Store.contains, Store.contains, store_get?_congr hk]

theorem get?_alike (hl : (Dn.split a).length = (Dn.split b).length) : d.get? a = d.get? b := by
  have hempty : (Dn.split a).isEmpty = (Dn.split b).isEmpty := by
    rw [Bool.eq_iff_iff, List.isEmpty_iff_length_eq_zero, List.isEmpty_iff_length_eq_zero, hl]
  rw [get?, get?, hempty, store_get?_congr hk]

theorem compare_alike (hl : (Dn.split a).length = (Dn.split b).length) (name : String) (value : List UInt8) :
    (d.compare a name value).mapError Failure.code = (d.compare b name value).mapError Failure.code := by
  rw [compare, compare, get?_alike hk hl]
  cases d.get? b <;> rfl

/-! ### Editing -/

theorem modify_alike (hs : d.store.contains a → SameNaming a b) (changes : List Change) (permissive noOp : Bool) :
    (d.modify a changes permissive noOp).mapError Failure.code =
      (d.modify b changes permissive noOp).mapError Failure.code := by
  unfold modify
  rcases require_cases (d := d) hk with ⟨e, ha, hb⟩ | ⟨-, f, g, ha, hb, hfg⟩
  · rw [ha, hb, Except.ok_bind, Except.ok_bind]
    obtain ⟨hab, hba⟩ := hs (contains_of_require ha)
    cases Edit.apply (changes.forM fun c => Edit.change c permissive) e with
    | error f => rfl
    | ok after =>
      rw [Except.ok_bind, Except.ok_bind]
      rcases checkNaming_cases a after with ⟨hn, ha⟩ | ⟨hn, f, ha, hf⟩
      · rw [ha, checkNaming_eq_ok_iff.mpr (hn.of_covers hab)]
      · rcases checkNaming_cases b after with ⟨hn', hb⟩ | ⟨-, g, hb, hg⟩
        · exact absurd (hn'.of_covers hba) hn
        · rw [ha, hb]
          exact congrArg Except.error (hf.trans hg.symm)
  · rw [ha, hb]
    exact congrArg Except.error hfg

/-- An edit may leave an entry the values that the one spelling begins with, and take one of the other away. -/
theorem covers_of_modify_alike (hm : ∀ changes, (d.modify a changes true true).mapError Failure.code =
    (d.modify b changes true true).mapError Failure.code) (hc : d.store.contains a) :
    Dn.Covers (Dn.naming b) (Dn.naming a) := by
  intro c hmem
  by_contra hnot
  obtain ⟨e, ha, hb⟩ := (require_cases (d := d) hk).resolve_right fun h => h.1 hc
  obtain ⟨changes, after, hedit, -, hhas, hmissing⟩ := Edit.exists_renewed e hnot
  obtain ⟨f, hf, -⟩ : ∃ f, checkNaming a after = .error f ∧ f.code = .notAllowedOnRdn :=
    ((checkNaming_cases a after).resolve_left fun h => hmissing (h.1 c hmem)).2
  have hboth := hm changes
  unfold modify at hboth
  rw [ha, hb, Except.ok_bind, Except.ok_bind, hedit, Except.ok_bind, Except.ok_bind, hf,
    checkNaming_eq_ok_iff.mpr hhas] at hboth
  cases hboth

end Spellings

/-- Two spellings of a name with the same key and as many relative names are alike to all who look up, remove, compare
or authenticate. They are to those who edit an entry just if they begin with the same values. -/
theorem spelled_alike_iff (d : Directory) (a b : String) (hk : Dn.normalize a = Dn.normalize b)
    (hl : (Dn.split a).length = (Dn.split b).length) :
    d.get? a = d.get? b ∧
    (∀ subtree noOp,
      (d.delete a subtree noOp).mapError Failure.code = (d.delete b subtree noOp).mapError Failure.code) ∧
    (∀ name value, (d.compare a name value).mapError Failure.code = (d.compare b name value).mapError Failure.code) ∧
    (∀ password, d.checkPassword a password = d.checkPassword b password) ∧
    ((∀ changes permissive noOp, (d.modify a changes permissive noOp).mapError Failure.code =
      (d.modify b changes permissive noOp).mapError Failure.code) ↔ (d.store.contains a → SameNaming a b)) := by
  refine ⟨get?_alike hk hl, delete_alike hk, compare_alike hk hl, checkPassword_alike hk, fun hm hc => ⟨?_, ?_⟩,
    modify_alike hk⟩
  · have hcb : d.store.contains b := by rwa [Store.contains, ← store_get?_congr hk]
    exact covers_of_modify_alike hk.symm (fun changes => (hm changes true true).symm) hcb
  · exact covers_of_modify_alike hk (fun changes => hm changes true true) hc

theorem spelled_alike_iff_people :
    let d := (ofBases ["o=x"]).run [.add "o=x" [] false, .add "cn=Doe\\, John,o=x" [] false]
    let a := "cn=Doe\\, John,o=x"
    let b := "CN = \"doe, john\" ; O=X"
    Dn.normalize a = Dn.normalize b ∧ (Dn.split a).length = (Dn.split b).length ∧ d.store.contains a ∧ SameNaming a b ∧
      d.get? a = d.get? b ∧ (d.modify a [] false false).mapError Failure.code =
        (d.modify b [] false false).mapError Failure.code := by
  intro d a b
  have hk : Dn.normalize a = Dn.normalize b := by decide +kernel
  have hl : (Dn.split a).length = (Dn.split b).length := by decide +kernel
  have hc : d.store.contains a := by decide +kernel
  have hs : SameNaming a b := by decide +kernel
  obtain ⟨hget, -, -, -, hm⟩ := spelled_alike_iff d a b hk hl
  exact ⟨hk, hl, hc, hs, hget, hm.mpr (fun _ => hs) [] false false⟩

/-- Capitals beyond ASCII make no difference to the key of a name, but to the values that an edit looks for. So do
capitals in a password that is part of a name. -/
theorem not_spelled_alike :
    let d := (ofBases ["o=x"]).run [.add "o=x" [] false, .add "cn=É,o=x" [] false, .add "userPassword=S,o=x" [] false]
    (Dn.normalize "cn=é,o=x" = Dn.normalize "cn=É,o=x" ∧
      (Dn.split "cn=é,o=x").length = (Dn.split "cn=É,o=x").length ∧
      (d.modify "cn=é,o=x" [] false false).mapError Failure.code ≠
        (d.modify "cn=É,o=x" [] false false).mapError Failure.code) ∧
    Dn.normalize "userPassword=s,o=x" = Dn.normalize "userPassword=S,o=x" ∧
      (Dn.split "userPassword=s,o=x").length = (Dn.split "userPassword=S,o=x").length ∧
      (d.modify "userPassword=s,o=x" [] false false).mapError Failure.code ≠
        (d.modify "userPassword=S,o=x" [] false false).mapError Failure.code := by
  intro d
  have hcn : ((d.modify "cn=é,o=x" [] false false).mapError Failure.code).isOk ≠
      ((d.modify "cn=É,o=x" [] false false).mapError Failure.code).isOk := by decide +kernel
  have hpassword : ((d.modify "userPassword=s,o=x" [] false false).mapError Failure.code).isOk ≠
      ((d.modify "userPassword=S,o=x" [] false false).mapError Failure.code).isOk := by decide +kernel
  exact ⟨⟨by decide +kernel, by decide +kernel, fun h => hcn (congrArg Except.isOk h)⟩,
    by decide +kernel, by decide +kernel, fun h => hpassword (congrArg Except.isOk h)⟩

end Directory

end Ldap
