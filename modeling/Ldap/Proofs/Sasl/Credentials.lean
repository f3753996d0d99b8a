import Ldap.Failure
import Ldap.Proofs.Ber.Buffer
import Ldap.Proofs.Ber.Reads
import Ldap.Proofs.Sasl.Plain
import Ldap.Proofs.Text.Numeral
import Mathlib.Data.List.TakeDrop

/-! What the bytes of a bind by PLAIN decide. The first two null bytes cut them, whatever stands behind: bytes with
fewer, or with an identity that is no text, are malformed, and all others are judged by whom they stand for. The client
is not told which step of that judgement has failed. -/

namespace Ldap.Plain

open Ber (utf8Bytes utf8Text?)

variable {bytes front middle password : List UInt8} {c : Credentials}

/-- Bytes, cut at their first two null bytes. -/
structure Parts (bytes front middle password : List UInt8) : Prop where
  eq : bytes = front ++ 0 :: (middle ++ 0 :: password)
  front_whole : 0 ∉ front
  middle_whole : 0 ∉ middle

/-- The bytes are UTF-8. -/
def IsText (bytes : List UInt8) : Prop := ∃ s, utf8Bytes s = bytes

/-- Bytes read as credentials: the identity to act as is absent if nothing stands for it. -/
inductive Reads (bytes : List UInt8) : Credentials → Prop
  | self (authcid : String) (password : List UInt8) (h : Parts bytes [] (utf8Bytes authcid) password) :
      Reads bytes ⟨none, authcid, password⟩
  | other (authzid authcid : String) (password : List UInt8) (hz : authzid ≠ "")
      (h : Parts bytes (utf8Bytes authzid) (utf8Bytes authcid) password) :
      Reads bytes ⟨some authzid, authcid, password⟩

/-! ### The cut -/

theorem bne_of_whole (hf : 0 ∉ front) : ∀ b ∈ front, (b != 0) = true :=
  fun _ hb => bne_iff_ne.mpr fun h => hf (h ▸ hb)

theorem span_null (hf : 0 ∉ front) (rest : List UInt8) :
    (front ++ 0 :: rest).span (· != 0) = (front, 0 :: rest) := by
  rw [List.span_eq_takeWhile_dropWhile, List.takeWhile_append_of_pos (bne_of_whole hf),
    List.dropWhile_append_of_pos (bne_of_whole hf)]
  simp

theorem span_whole (hf : 0 ∉ front) : front.span (· != 0) = (front, []) := by
  rw [List.span_eq_takeWhile_dropWhile, List.takeWhile_eq_self_iff.mpr (bne_of_whole hf),
    List.dropWhile_eq_nil_iff.mpr (bne_of_whole hf)]

/-- Two null bytes are enough to cut at. -/
theorem exists_parts_iff : (∃ front middle password, Parts bytes front middle password) ↔ 2 ≤ bytes.count 0 := by
  constructor
  · rintro ⟨front, middle, password, rfl, -, -⟩
    simp only [List.count_append, List.count_cons_self]
    omega
  · intro h
    obtain ⟨front, rest, rfl, hf⟩ := List.eq_append_cons_of_mem (List.count_pos_iff.mp (by omega : 0 < bytes.count 0))
    have hrest : 0 < rest.count 0 := by
      simp only [List.count_append, List.count_cons_self, List.count_eq_zero_of_not_mem hf] at h
      omega
    obtain ⟨middle, password, rfl, hm⟩ := List.eq_append_cons_of_mem (List.count_pos_iff.mp hrest)
    exact ⟨front, middle, password, rfl, hf, hm⟩

theorem parse_of_count_lt (h : bytes.count 0 < 2) : parse bytes = parse.missing := by
  unfold parse
  by_cases hb : 0 ∈ bytes
  · obtain ⟨front, rest, rfl, hf⟩ := List.eq_append_cons_of_mem hb
    have hrest : 0 ∉ rest := by
      simp only [List.count_append, List.count_cons_self, List.count_eq_zero_of_not_mem hf] at h
      exact List.count_eq_zero.mp (by omega)
    simp only [span_null hf, span_whole hrest]
  · simp only [span_whole hb]

/-- The identity to act as, of the bytes that stand for it. -/
def actor (front : List UInt8) : Except AuthError (Option String) :=
  if front = [] then .ok none else (identity front).map some

theorem Parts.parse_eq (h : Parts bytes front middle password) :
    parse bytes = actor front >>= fun authzid => (identity middle).map (⟨authzid, ·, password⟩) := by
  unfold parse actor
  simp only [h.eq, span_null h.front_whole, span_null h.middle_whole, List.isEmpty_iff]
  split <;> rfl

/-! ### Identities -/

theorem identity_eq_ok_iff {s : String} : identity bytes = .ok s ↔ utf8Bytes s = bytes := by
  unfold identity
  constructor
  · intro h
    split at h
    · rename_i text htext
      obtain rfl := Except.ok.inj h
      exact (Ber.eq_utf8Bytes_of_utf8Text? htext).symm
    · cases h
  · rintro rfl
    rw [Ber.utf8Text?_utf8Bytes]

/-- Bytes that are no text have one answer. -/
theorem identity_of_not_isText (h : ¬ IsText bytes) :
    identity bytes = .error (.malformedCredentials "PLAIN identities must be valid UTF-8") := by
  unfold identity
  cases htext : utf8Text? bytes with
  | none => rfl
  | some s => exact absurd ⟨s, (Ber.eq_utf8Bytes_of_utf8Text? htext).symm⟩ h

theorem isText_nil : IsText [] := ⟨"", rfl⟩

theorem utf8Bytes_eq_nil_iff {s : String} : utf8Bytes s = [] ↔ s = "" := by
  rw [← List.length_eq_zero_iff, Ber.length_utf8Bytes, String.utf8ByteSize_eq_zero_iff]

theorem actor_eq_ok_iff {authzid : Option String} : actor front = .ok authzid ↔
    front = [] ∧ authzid = none ∨ ∃ s, s ≠ "" ∧ utf8Bytes s = front ∧ authzid = some s := by
  unfold actor
  by_cases hf : front = []
  · simp [hf, utf8Bytes_eq_nil_iff, @eq_comm _ authzid]
  · rw [if_neg hf, Except.map_eq_ok_iff]
    constructor
    · rintro ⟨s, hs, rfl⟩
      obtain rfl := identity_eq_ok_iff.mp hs
      exact .inr ⟨s, mt utf8Bytes_eq_nil_iff.mpr hf, rfl, rfl⟩
    · rintro (⟨h, -⟩ | ⟨s, -, hs, rfl⟩)
      · exact absurd h hf
      · exact ⟨s, identity_eq_ok_iff.mpr hs, rfl⟩

/-- Bytes are parsed into what they read as. -/
theorem parse_eq_ok_iff : parse bytes = .ok c ↔ Reads bytes c := by
  constructor
  · intro h
    have hcount : 2 ≤ bytes.count 0 := by
      by_contra hlt
      rw [parse_of_count_lt (by omega)] at h
      cases h
    obtain ⟨front, middle, password, hp⟩ := exists_parts_iff.mpr hcount
    simp only [hp.parse_eq, Except.bind_eq_ok_iff, Except.map_eq_ok_iff, actor_eq_ok_iff, identity_eq_ok_iff] at h
    obtain ⟨_, ⟨rfl, rfl⟩ | ⟨authzid, hz, rfl, rfl⟩, authcid, rfl, rfl⟩ := h
    · exact .self authcid password hp
    · exact .other authzid authcid password hz hp
  · intro h
    cases h with
    | self authcid password hp =>
      rw [hp.parse_eq, actor_eq_ok_iff.mpr (.inl ⟨rfl, rfl⟩), Except.ok_bind, identity_eq_ok_iff.mpr rfl]
      rfl
    | other authzid authcid password hz hp =>
      rw [hp.parse_eq, actor_eq_ok_iff.mpr (.inr ⟨authzid, hz, rfl, rfl⟩), Except.ok_bind, identity_eq_ok_iff.mpr rfl]
      rfl

/-- Where the cut is made, only a part that is no text is malformed. -/
theorem Parts.parse_of_not_isText (h : Parts bytes front middle password) (ht : ¬ (IsText front ∧ IsText middle)) :
    parse bytes = .error (.malformedCredentials "PLAIN identities must be valid UTF-8") := by
  rw [h.parse_eq]
  by_cases hf : IsText front
  · have hm : ¬ IsText middle := fun hm => ht ⟨hf, hm⟩
    obtain ⟨s, hs⟩ := hf
    rw [identity_of_not_isText hm, actor, identity_eq_ok_iff.mpr hs]
    split <;> rfl
  · have hne : front ≠ [] := fun h => hf (h ▸ isText_nil)
    rw [actor, if_neg hne, identity_of_not_isText hf]
    rfl

theorem Parts.exists_reads (h : Parts bytes front middle password) (hf : IsText front) (hm : IsText middle) :
    ∃ c, Reads bytes c := by
  obtain ⟨authzid, rfl⟩ := hf
  obtain ⟨authcid, rfl⟩ := hm
  by_cases hz : authzid = ""
  · subst hz
    exact ⟨_, .self authcid password h⟩
  · exact ⟨_, .other authzid authcid password hz h⟩

/-! ### The judgement -/

variable {d : Directory} {allowAnonymous : Bool} {failure : AuthError}

theorem bind_of_count_lt (h : bytes.count 0 < 2) : bind allowAnonymous d (some bytes) =
    .error (.malformedCredentials "PLAIN credentials must contain two NUL separators") := by
  rw [bind, parse_of_count_lt h]
  rfl

theorem Parts.bind_of_not_isText (h : Parts bytes front middle password) (ht : ¬ (IsText front ∧ IsText middle)) :
    bind allowAnonymous d (some bytes) =
      .error (.malformedCredentials "PLAIN identities must be valid UTF-8") := by
  rw [bind, h.parse_of_not_isText ht]
  rfl

theorem resolve_failure {authzid : String} (h : resolve d authzid = .error failure) :
    failure = .invalidCredentials := by
  unfold resolve at h
  cases hr : d.resolveAuthzid authzid with
  | error _ =>
    rw [hr] at h
    exact (Except.error.inj h).symm
  | ok _ =>
    rw [hr] at h
    cases h

theorem bindAnonymous_failure (h : bindAnonymous allowAnonymous c = .error failure) :
    failure = .invalidCredentials := by
  unfold bindAnonymous at h
  split at h
  · cases h
  · exact (Except.error.inj h).symm

theorem bindIdentity_failure {dn : String} (h : bindIdentity d dn c = .error failure) :
    failure = .invalidCredentials := by
  unfold bindIdentity at h
  split at h
  · exact (Except.error.inj h).symm
  · split at h
    · cases h
    · rename_i authzid _
      cases hr : resolve d authzid with
      | error _ =>
        rw [hr] at h
        obtain rfl := Except.error.inj h
        exact resolve_failure hr
      | ok _ =>
        rw [hr] at h
        cases h

/-- Credentials that could be read fail in one way, whichever step it is that fails. -/
theorem Reads.failure_eq (h : Reads bytes c) (hb : bind allowAnonymous d (some bytes) = .error failure) :
    failure = .invalidCredentials := by
  simp only [bind, parse_eq_ok_iff.mpr h, Except.ok_bind] at hb
  cases hr : resolve d c.authcid with
  | error _ =>
    rw [hr] at hb
    obtain rfl := Except.error.inj hb
    exact resolve_failure hr
  | ok dn =>
    rw [hr, Except.ok_bind] at hb
    split at hb
    · exact bindAnonymous_failure hb
    · exact bindIdentity_failure hb

/-- Bytes have too few null bytes, or an identity among them is no text, or they can be read. -/
theorem short_or_not_isText_or_reads (bytes : List UInt8) : bytes.count 0 < 2 ∨
    (∃ front middle password, Parts bytes front middle password ∧ ¬ (IsText front ∧ IsText middle)) ∨
    ∃ c, Reads bytes c := by
  rcases Nat.lt_or_ge (bytes.count 0) 2 with hcount | hcount
  · exact .inl hcount
  · obtain ⟨front, middle, password, hp⟩ := exists_parts_iff.mpr hcount
    by_cases ht : IsText front ∧ IsText middle
    · exact .inr (.inr (hp.exists_reads ht.1 ht.2))
    · exact .inr (.inl ⟨front, middle, password, hp, ht⟩)

/-- What a bind by PLAIN answers to bytes. It succeeds just if they read as credentials that stand for someone, they are
malformed just if they have fewer than two null bytes or an identity that is no text, and all other bytes fail alike,
with no word on the cause. The name of the bind and the connection play no part. -/
theorem mechanism_bind (allowAnonymous : Bool) (d : Directory) (name : String) (bytes : List UInt8)
    (state : SaslState) :
    ∃ answer, (mechanism allowAnonymous).bind d name (some bytes) state = (answer, state) ∧
      (∀ outcome, answer = .ok outcome ↔
        ∃ c, Reads bytes c ∧ ∃ dn, Grants allowAnonymous d c dn ∧ outcome = { dn }) ∧
      (answer = .error (.malformedCredentials "PLAIN credentials must contain two NUL separators") ↔
        bytes.count 0 < 2) ∧
      (answer = .error (.malformedCredentials "PLAIN identities must be valid UTF-8") ↔
        ∃ front middle password, Parts bytes front middle password ∧ ¬ (IsText front ∧ IsText middle)) ∧
      (∀ failure, answer = .error failure → (∃ reason, failure = .malformedCredentials reason ∧
          (bytes.count 0 < 2 ∨ ∃ front middle password, Parts bytes front middle password ∧
            ¬ (IsText front ∧ IsText middle))) ∨
        failure = .invalidCredentials ∧ (Failure.authentication failure).message = "") := by
  refine ⟨bind allowAnonymous d (some bytes), rfl, fun outcome => ?_, ⟨fun hb => ?_, bind_of_count_lt⟩,
    ⟨fun hb => ?_, fun ⟨_, _, _, hp, ht⟩ => hp.bind_of_not_isText ht⟩, fun failure hb => ?_⟩
  · rw [bind_eq_ok_iff]
    constructor
    · rintro ⟨_, c, hbytes, hc, hg⟩
      obtain rfl := Option.some.inj hbytes
      exact ⟨c, parse_eq_ok_iff.mp hc, hg⟩
    · rintro ⟨c, hc, hg⟩
      exact ⟨bytes, c, rfl, parse_eq_ok_iff.mpr hc, hg⟩
  · rcases short_or_not_isText_or_reads bytes with hcount | ⟨_, _, _, hp, ht⟩ | ⟨c, hc⟩
    · exact hcount
    · exact absurd (Except.error.inj (hb.symm.trans (hp.bind_of_not_isText ht))) (by decide)
    · cases hc.failure_eq hb
  · rcases short_or_not_isText_or_reads bytes with hcount | h | ⟨c, hc⟩
    · exact absurd (Except.error.inj (hb.symm.trans (bind_of_count_lt hcount))) (by decide)
    · exact h
    · cases hc.failure_eq hb
  · rcases short_or_not_isText_or_reads bytes with hcount | h | ⟨c, hc⟩
    · exact .inl ⟨_, Except.error.inj (hb.symm.trans (bind_of_count_lt hcount)), .inl hcount⟩
    · obtain ⟨_, _, _, hp, ht⟩ := id h
      exact .inl ⟨_, Except.error.inj (hb.symm.trans (hp.bind_of_not_isText ht)), .inr h⟩
    · obtain rfl := hc.failure_eq hb
      exact .inr ⟨rfl, rfl⟩

end Ldap.Plain
