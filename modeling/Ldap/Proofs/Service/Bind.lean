import Ldap.Proofs.Directory.Spelling
import Ldap.Proofs.Entry.Parts
import Ldap.Proofs.Sasl.Credentials
import Ldap.Proofs.Service.Identity

/-! The two ways to bind by a name and its password. A simple bind looks the name up as it stands, while PLAIN is given
it behind "dn:", takes the blanks around it away, and asks for an identity before it asks for the password. They accept
the same names and passwords. -/

namespace Ldap

namespace Directory

variable {d : Directory} {name dn : String} {password : List UInt8}

/-- Who has a password is an identity. -/
theorem hasIdentity_of_checkPassword (h : d.checkPassword name password) : d.hasIdentity name := by
  rw [checkPassword, Bool.or_eq_true, beq_iff_eq, Option.any_eq_true] at h
  rw [hasIdentity, Bool.or_eq_true]
  rcases h with hcredential | ⟨e, he, -⟩
  · exact .inl (hcredential ▸ rfl)
  · exact .inr (Option.isSome_iff_exists.mpr ⟨e, he⟩)

/-- The identity behind "dn:" is the name without the blanks around it. -/
theorem resolveAuthzid_dn_eq_ok_iff :
    d.resolveAuthzid ("dn:" ++ name) = .ok dn ↔ dn = Text.trim name ∧ (dn = "" ∨ d.hasIdentity name) := by
  have hk : Dn.normalize (Text.trim name) = Dn.normalize name := Dn.normalize_trim name
  have hstrip : Text.strip? "dn:".toList ("dn:" ++ name).toList = some name.toList :=
    Text.strip?_eq_some_iff.mpr (String.toList_append ..)
  rw [resolveAuthzid, hstrip]
  change (if (Text.trim name).isEmpty || d.hasIdentity (Text.trim name) then _ else _) = _ ↔ _
  rw [hasIdentity_alike hk]
  by_cases h : Text.trim name = "" ∨ d.hasIdentity name
  · rw [if_pos (by simpa using h)]
    constructor
    · intro hok
      obtain rfl := Except.ok.inj hok
      exact ⟨rfl, h⟩
    · rintro ⟨rfl, -⟩
      rfl
  · rw [if_neg (by simpa using h)]
    refine iff_of_false nofun ?_
    rintro ⟨rfl, hdn⟩
    exact h hdn

end Directory

namespace Service

open Ber (utf8Bytes)

variable {d : Directory} {allowAnonymous : Bool} {name : String} {password : List UInt8} {outcome : BindOutcome}

/-- What PLAIN is given for a name and its password, without an identity to act as. -/
def plainCredentials (name : String) (password : List UInt8) : List UInt8 :=
  0 :: (utf8Bytes ("dn:" ++ name) ++ 0 :: password)

theorem parse_plainCredentials (h : '\x00' ∉ name.toList) (password : List UInt8) :
    Plain.parse (plainCredentials name password) = .ok ⟨none, "dn:" ++ name, password⟩ := by
  have hwhole : 0 ∉ utf8Bytes ("dn:" ++ name) := by
    refine Text.zero_not_mem_utf8Bytes ?_
    rw [String.toList_append, List.mem_append]
    exact not_or.mpr ⟨by decide, h⟩
  exact Plain.parse_eq_ok_iff.mpr (.self _ password ⟨rfl, List.not_mem_nil, hwhole⟩)

/-- PLAIN grants the name, without the blanks around it, to who knows its password. -/
theorem plain_eq_ok_iff (hn : Text.trim name ≠ "") (h : '\x00' ∉ name.toList) :
    Plain.bind allowAnonymous d (some (plainCredentials name password)) = .ok outcome ↔
      password ≠ [] ∧ d.checkPassword name password ∧ outcome = { dn := Text.trim name } := by
  have hcheck : d.checkPassword (Text.trim name) password = d.checkPassword name password :=
    Directory.checkPassword_alike (Dn.normalize_trim name) password
  rw [Plain.bind_eq_ok_iff]
  constructor
  · rintro ⟨_, c, hbytes, hparse, dn, hg, rfl⟩
    obtain rfl := Option.some.inj hbytes
    obtain rfl := Except.ok.inj ((parse_plainCredentials h password).symm.trans hparse)
    cases hg with
    | anonymous ha => exact absurd (Directory.resolveAuthzid_dn_eq_ok_iff.mp ha).1.symm hn
    | verified authenticated _ _ hp hv =>
      obtain ⟨rfl, -⟩ := Directory.resolveAuthzid_dn_eq_ok_iff.mp hv.resolved
      obtain ⟨-, rfl⟩ | ⟨_, hz, -⟩ := hv.acts
      · exact ⟨hp, hcheck.symm.trans hv.password, rfl⟩
      · cases hz
  · rintro ⟨hp, hc, rfl⟩
    refine ⟨_, _, rfl, parse_plainCredentials h password, Text.trim name, ?_, rfl⟩
    have hresolved : d.resolveAuthzid ("dn:" ++ name) = .ok (Text.trim name) :=
      Directory.resolveAuthzid_dn_eq_ok_iff.mpr ⟨rfl, .inr (Directory.hasIdentity_of_checkPassword hc)⟩
    exact .verified _ _ hn hp ⟨hresolved, hcheck.trans hc, .inl ⟨rfl, rfl⟩⟩

/-- A simple bind by a name and a password succeeds just if a bind by PLAIN with the name behind "dn:" does, whatever
else PLAIN is given, and both are for the same name but for the blanks around it. -/
theorem simpleBind_agrees_with_plain (hn : Text.trim name ≠ "") (h : '\x00' ∉ name.toList) (d : Directory)
    (allowAnonymous : Bool) (password : List UInt8) (bindName : String) (state : SaslState) :
    ∃ answer, (Plain.mechanism allowAnonymous).bind d bindName (some (plainCredentials name password)) state =
        (answer, state) ∧
      ((∃ dn, simpleBind d name password = .ok dn) ↔ ∃ outcome, answer = .ok outcome) ∧
      ∀ dn outcome, simpleBind d name password = .ok dn → answer = .ok outcome →
        Text.trim dn = Text.trim outcome.dn := by
  refine ⟨Plain.bind allowAnonymous d (some (plainCredentials name password)), rfl, ?_, ?_⟩
  · constructor
    · rintro ⟨dn, hs⟩
      obtain ⟨hblank, -⟩ | ⟨-, hp, hc, -⟩ := simpleBind_eq_ok_iff.mp hs
      · exact absurd hblank hn
      · exact ⟨_, (plain_eq_ok_iff hn h).mpr ⟨hp, hc, rfl⟩⟩
    · rintro ⟨outcome, hpl⟩
      obtain ⟨hp, hc, -⟩ := (plain_eq_ok_iff hn h).mp hpl
      exact ⟨name, simpleBind_eq_ok_iff.mpr (.inr ⟨hn, hp, hc, rfl⟩)⟩
  · intro dn outcome hs hpl
    obtain ⟨-, -, rfl⟩ := (plain_eq_ok_iff hn h).mp hpl
    obtain ⟨hblank, -⟩ | ⟨-, -, -, rfl⟩ := simpleBind_eq_ok_iff.mp hs
    · exact absurd hblank hn
    · exact (Text.trim_trim dn).symm

/-- A further identity with a password, in another case and with blanks around it. -/
theorem simpleBind_agrees_with_plain_people :
    let d : Directory := ({ bases := ["o=x"] } : Directory).addCredential "cn=root" [0x70]
    Text.trim " CN=root " ≠ "" ∧ '\x00' ∉ " CN=root ".toList ∧
      simpleBind d " CN=root " [0x70] = .ok " CN=root " ∧
      ∃ outcome, (Plain.mechanism false).bind d "" (some (plainCredentials " CN=root " [0x70])) {} = (.ok outcome, {}) ∧
        Text.trim " CN=root " = Text.trim outcome.dn := by
  intro d
  have hn : Text.trim " CN=root " ≠ "" := by decide
  have h : '\x00' ∉ " CN=root ".toList := by decide
  have hs : simpleBind d " CN=root " [0x70] = .ok " CN=root " := by decide +kernel
  obtain ⟨_, hbind, hiff, hagree⟩ := simpleBind_agrees_with_plain hn h d false [0x70] "" {}
  obtain ⟨outcome, rfl⟩ := hiff.mp ⟨_, hs⟩
  exact ⟨hn, h, hs, outcome, hbind, hagree _ outcome hs rfl⟩

end Service

end Ldap
