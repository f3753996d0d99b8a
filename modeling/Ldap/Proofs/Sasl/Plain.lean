import Ldap.Proofs.Except
import Ldap.Sasl.Plain

/-! Whom credentials of the mechanism PLAIN stand for. The password is that of the identity they authenticate as, and
only behind it the identity to act as is looked at. A registry of built-in mechanisms offers this one or none. -/

namespace Ldap

namespace Plain

variable {d : Directory} {c : Credentials} {allowAnonymous : Bool} {credentials : Option (List UInt8)}
  {outcome : BindOutcome} {dn : String}

/-- The identity that is authenticated knows its password, and acts as itself or as another one. -/
structure Verified (d : Directory) (c : Credentials) (authenticated dn : String) : Prop where
  resolved : d.resolveAuthzid c.authcid = .ok authenticated
  password : d.checkPassword authenticated c.password
  acts : c.authzid = none ∧ dn = authenticated ∨ ∃ authzid, c.authzid = some authzid ∧ d.resolveAuthzid authzid = .ok dn

/-- Whom parsed credentials stand for. -/
inductive Grants (allowAnonymous : Bool) (d : Directory) (c : Credentials) : String → Prop
  | anonymous (ha : d.resolveAuthzid c.authcid = .ok "") (hallow : allowAnonymous = true) (hp : c.password = [])
      (hz : c.authzid = none) : Grants allowAnonymous d c ""
  | verified (authenticated dn : String) (hn : authenticated ≠ "") (hp : c.password ≠ [])
      (hv : Verified d c authenticated dn) : Grants allowAnonymous d c dn

theorem resolve_eq_ok_iff {authzid : String} : resolve d authzid = .ok dn ↔ d.resolveAuthzid authzid = .ok dn :=
  Except.mapError_eq_ok_iff

theorem bindAnonymous_eq_ok_iff : bindAnonymous allowAnonymous c = .ok outcome ↔
    allowAnonymous = true ∧ c.password = [] ∧ c.authzid = none ∧ outcome = { dn := "" } := by
  unfold bindAnonymous
  by_cases h : allowAnonymous = true ∧ c.password = [] ∧ c.authzid = none
  · obtain ⟨hallow, hp, hz⟩ := h
    simp [hallow, hp, hz, @eq_comm _ outcome]
  · rw [if_neg (by simpa [and_assoc] using h)]
    exact iff_of_false nofun fun hok => h ⟨hok.1, hok.2.1, hok.2.2.1⟩

theorem bindIdentity_eq_ok_iff : bindIdentity d dn c = .ok outcome ↔
    c.password ≠ [] ∧ d.checkPassword dn c.password ∧
      (c.authzid = none ∧ outcome = { dn } ∨
        ∃ authzid, c.authzid = some authzid ∧
          ∃ other, d.resolveAuthzid authzid = .ok other ∧ outcome = { dn := other }) := by
  unfold bindIdentity
  by_cases hp : c.password = []
  · simp [hp]
  by_cases hc : d.checkPassword dn c.password
  · cases hz : c.authzid <;> simp [hp, hc, Except.map_eq_ok_iff, resolve_eq_ok_iff, @eq_comm _ outcome]
  · simp [hc]

/-- A bind succeeds for whom its credentials stand, and for no one else. -/
theorem bind_eq_ok_iff : bind allowAnonymous d credentials = .ok outcome ↔
    ∃ bytes c, credentials = some bytes ∧ parse bytes = .ok c ∧
      ∃ dn, Grants allowAnonymous d c dn ∧ outcome = { dn } := by
  cases credentials with
  | none => simp [bind, throw, throwThe, MonadExceptOf.throw]
  | some bytes =>
    simp only [bind, Except.bind_eq_ok_iff, resolve_eq_ok_iff, Option.some.injEq]
    constructor
    · rintro ⟨c, hparse, dn, ha, h⟩
      refine ⟨bytes, c, rfl, hparse, ?_⟩
      split at h
      · rename_i hempty
        obtain rfl := String.isEmpty_iff.mp hempty
        obtain ⟨hallow, hp, hz, rfl⟩ := bindAnonymous_eq_ok_iff.mp h
        exact ⟨"", .anonymous ha hallow hp hz, rfl⟩
      · rename_i hempty
        have hn : dn ≠ "" := fun h => hempty (String.isEmpty_iff.mpr h)
        obtain ⟨hp, hc, ⟨hz, rfl⟩ | ⟨authzid, hz, other, hr, rfl⟩⟩ := bindIdentity_eq_ok_iff.mp h
        · exact ⟨dn, .verified dn dn hn hp ⟨ha, hc, .inl ⟨hz, rfl⟩⟩, rfl⟩
        · exact ⟨other, .verified dn other hn hp ⟨ha, hc, .inr ⟨authzid, hz, hr⟩⟩, rfl⟩
    · rintro ⟨_, c, rfl, hparse, dn, hg, rfl⟩
      refine ⟨c, hparse, ?_⟩
      cases hg with
      | anonymous ha hallow hp hz =>
        refine ⟨"", ha, ?_⟩
        rw [if_pos (String.isEmpty_iff.mpr rfl)]
        exact bindAnonymous_eq_ok_iff.mpr ⟨hallow, hp, hz, rfl⟩
      | verified authenticated _ hn hp hv =>
        refine ⟨authenticated, hv.resolved, ?_⟩
        rw [if_neg fun h => hn (String.isEmpty_iff.mp h)]
        refine bindIdentity_eq_ok_iff.mpr ⟨hp, hv.password, ?_⟩
        rcases hv.acts with ⟨hz, rfl⟩ | ⟨authzid, hz, hr⟩
        · exact .inl ⟨hz, rfl⟩
        · exact .inr ⟨authzid, hz, dn, hr, rfl⟩

end Plain

namespace Mechanisms

theorem register_of_list {ms : Mechanisms} {m : Mechanism} (h : ms.list = [] ∨ ms.list = [m]) :
    (ms.register m).list = [m] := by
  rcases h with h | h <;> simp [register, h, insertInto]

theorem list_foldl_register {α : Type} {ms : Mechanisms} {m : Mechanism} {l : List α} (h : ms.list = [m]) :
    (l.foldl (fun ms _ => ms.register m) ms).list = [m] := by
  induction l generalizing ms with
  | nil => exact h
  | cons _ _ ih => exact ih (register_of_list (.inr h))

theorem list_ofNames (names : List String) (allowAnonymous : Bool) : (ofNames names allowAnonymous).list =
    if names.any Plain.isNamed then [Plain.mechanism allowAnonymous] else [] := by
  unfold ofNames
  cases h : names.filter Plain.isNamed with
  | nil =>
    have hnone : names.any Plain.isNamed = false := by simpa using h
    rw [hnone]
    rfl
  | cons name rest =>
    have hsome : names.any Plain.isNamed = true := by
      have hmem : name ∈ names.filter Plain.isNamed := h ▸ List.mem_cons_self ..
      exact List.any_eq_true.mpr ⟨name, List.mem_filter.mp hmem⟩
    rw [hsome, if_pos rfl]
    exact list_foldl_register (l := rest) (register_of_list (.inl rfl))

theorem get?_ofNames (names : List String) (allowAnonymous : Bool) (name : String) :
    (ofNames names allowAnonymous).get? name =
      if names.any Plain.isNamed ∧ name = Plain.name then some (Plain.mechanism allowAnonymous) else none := by
  rw [get?, list_ofNames]
  by_cases hany : names.any Plain.isNamed
  · by_cases hname : name = Plain.name
    · simp [hany, hname, Plain.mechanism]
    · have hother : (Plain.name == name) = false := beq_false_of_ne (Ne.symm hname)
      simp [hany, hname, Plain.mechanism, hother]
  · simp [hany]

end Mechanisms

end Ldap
