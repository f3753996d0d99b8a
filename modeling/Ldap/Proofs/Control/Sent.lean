import Ldap.Proofs.Control.Decision
import Ldap.Proofs.Control.Value

/-! Controls that a client sends as it should. They are all admitted, whether they are critical or not, and what is
admitted is just what was sent. -/

namespace Ldap

open Control Admitted

theorem RequestControl.eq_internalOperation {r : RequestControl} (h : r.kind = .internalOperation) :
    r = .internalOperation := by
  cases r with
  | internalOperation => rfl
  | _ => cases h

/-- Controls that may be sent together with a request for the operation. -/
structure Sendable (operation : Operation) (sent : List RequestControl) : Prop where
  distinct : (sent.map RequestControl.oid).Nodup
  applies : ∀ r ∈ sent, r.kind = .internalOperation ∨ operation ∈ r.kind.operations
  encodable : ∀ r ∈ sent, r.Encodable
  proxiedOnce : .proxiedAuthorizationV1 ∈ sent.map RequestControl.kind →
    .proxiedAuthorizationV2 ∉ sent.map RequestControl.kind
  sorted : .listView ∈ sent.map RequestControl.kind → .sort ∈ sent.map RequestControl.kind
  notPaged : .listView ∈ sent.map RequestControl.kind → .pagedResults ∉ sent.map RequestControl.kind

/-- The controls as they are sent, each with its criticality. -/
def encodeControls (sent : List (RequestControl × Bool)) : List Control := sent.map fun x => x.1.toControl x.2

namespace Sendable

variable {operation : Operation} {sent : List (RequestControl × Bool)} {c : Control} {kind : ControlKind}
  {r decoded : RequestControl}

theorem mem_encodeControls :
    c ∈ encodeControls sent ↔ ∃ r critical, (r, critical) ∈ sent ∧ r.toControl critical = c := by
  simp [encodeControls]

variable (h : Sendable operation (sent.map Prod.fst))
include h

/-- What is sent applies to the operation, as what it is, unless it marks an operation of the server itself. -/
theorem applies_toControl (hr : r ∈ sent.map Prod.fst) (hi : r.kind ≠ .internalOperation) (critical : Bool) :
    (r.toControl critical).Applies operation r.kind := ⟨hi, rfl, (h.applies r hr).resolve_left hi⟩

theorem sends_iff (hi : kind ≠ .internalOperation) :
    Sends operation (encodeControls sent) kind ↔ kind ∈ (sent.map Prod.fst).map RequestControl.kind := by
  constructor
  · rintro ⟨c, hc, ha⟩
    obtain ⟨r, critical, hr, rfl⟩ := mem_encodeControls.mp hc
    obtain rfl : kind = r.kind := ControlKind.oid_injective ha.2.1
    exact List.mem_map_of_mem (List.mem_map_of_mem hr)
  · intro hk
    obtain ⟨r, hr, rfl⟩ := List.mem_map.mp hk
    obtain ⟨⟨r, critical⟩, hx, rfl⟩ := List.mem_map.mp hr
    exact ⟨_, mem_encodeControls.mpr ⟨r, critical, hx, rfl⟩, h.applies_toControl hr hi critical⟩

/-- What a control means is what it was written from. -/
theorem means_iff {critical : Bool} (hr : (r, critical) ∈ sent) :
    (r.toControl critical).Means operation decoded ↔ decoded = r := by
  have hmem : r ∈ sent.map Prod.fst := List.mem_map_of_mem hr
  have hmeans : (r.toControl critical).Means operation r := by
    by_cases hi : r.kind = .internalOperation
    · obtain rfl := RequestControl.eq_internalOperation hi
      exact .internal rfl
    · exact .applied r.kind (h.applies_toControl hmem hi critical) r (r.decode_toControl (h.encodable r hmem) critical)
  exact ⟨fun hd => hd.unique hmeans, fun hd => hd ▸ hmeans⟩

theorem pairwise_oid_ne : (encodeControls sent).Pairwise fun b c => b.oid ≠ c.oid := by
  have hd := h.distinct
  rw [List.map_map, List.Nodup, List.pairwise_map] at hd
  exact List.pairwise_map.mpr hd

theorem noneRefused : NoneRefused operation (encodeControls sent) := by
  intro before c after e hsplit hrefused
  have hc : c ∈ encodeControls sent := hsplit ▸ by simp
  obtain ⟨r, critical, hr, rfl⟩ := mem_encodeControls.mp hc
  have hmem : r ∈ sent.map Prod.fst := List.mem_map_of_mem hr
  by_cases hi : r.kind = .internalOperation
  · have hinternal : (r.toControl critical).IsInternal := congrArg ControlKind.oid hi
    exact not_refused_internal hinternal hrefused
  · have ha := h.applies_toControl hmem hi critical
    rcases (refused_applies_iff ha).mp hrefused with ⟨cause, hd, -⟩ | ⟨_, -, ⟨b, hb, ho⟩, -⟩
    · rw [r.decode_toControl (h.encodable r hmem)] at hd
      cases hd
    · have hne := h.pairwise_oid_ne
      rw [hsplit] at hne
      exact (List.pairwise_append.mp hne).2.2 b hb _ (List.mem_cons_self ..) ho

theorem not_clash (e : AdmissionError) : ¬ Clash operation (encodeControls sent) e := by
  rintro (⟨hv₁, hv₂⟩ | ⟨-, hv, hp⟩ | ⟨-, hv, -, hs⟩)
  · exact h.proxiedOnce ((h.sends_iff (by decide)).mp hv₁) ((h.sends_iff (by decide)).mp hv₂)
  · exact h.notPaged ((h.sends_iff (by decide)).mp hv) ((h.sends_iff (by decide)).mp hp)
  · exact hs ((h.sends_iff (by decide)).mpr (h.sorted ((h.sends_iff (by decide)).mp hv)))

theorem get?_iff {a : Admitted} (ha : ofControls operation (encodeControls sent) = .ok a) (oid : String)
    (r : RequestControl) : a.get? oid = some r ↔ r.oid = oid ∧ r ∈ sent.map Prod.fst := by
  have hapart : Apart operation (encodeControls sent) := by
    refine List.Pairwise.imp ?_ h.pairwise_oid_ne
    exact fun hne _ => hne
  simp only [get?_eq_map_held?, Option.map_eq_some_iff, (holds_of_ofControls ha).2.held?_iff, hapart.latest_iff]
  constructor
  · rintro ⟨⟨c, decoded⟩, ⟨hc, ho, hm⟩, hr⟩
    obtain rfl : decoded = r := hr
    obtain ⟨s, critical, hs, rfl⟩ := mem_encodeControls.mp hc
    obtain rfl : decoded = s := (h.means_iff hs).mp hm
    exact ⟨ho, List.mem_map_of_mem hs⟩
  · rintro ⟨rfl, hr⟩
    obtain ⟨⟨r, critical⟩, hx, rfl⟩ := List.mem_map.mp hr
    exact ⟨(r.toControl critical, r), ⟨mem_encodeControls.mpr ⟨r, critical, hx, rfl⟩, rfl, (h.means_iff hx).mpr rfl⟩,
      rfl⟩

theorem perm_oid {a : Admitted} (ha : ofControls operation (encodeControls sent) = .ok a) :
    (a.controls.map (·.1.oid)).Perm ((sent.map Prod.fst).map RequestControl.oid) := by
  refine (List.perm_ext_iff_of_nodup (holds_of_ofControls ha).2.distinct h.distinct).mpr fun oid => ?_
  have hmem : oid ∈ a.controls.map (·.1.oid) ↔ ∃ r, a.get? oid = some r := by
    rw [← Option.isSome_iff_exists]
    simp [get?]
  rw [hmem, List.mem_map]
  simp only [h.get?_iff ha, and_comm]

end Sendable

/-- Controls that may be sent together are admitted with any criticalities, and each is found under its object
identifier as it was sent. No others are admitted. -/
theorem Admitted.ofControls_encoded {operation : Operation} {sent : List (RequestControl × Bool)}
    (h : Sendable operation (sent.map Prod.fst)) :
    ∃ a, ofControls operation (encodeControls sent) = .ok a ∧
      (a.controls.map (·.1.oid)).Perm ((sent.map Prod.fst).map RequestControl.oid) ∧
      ∀ oid r, a.get? oid = some r ↔ r.oid = oid ∧ r ∈ sent.map Prod.fst := by
  cases hr : ofControls operation (encodeControls sent) with
  | ok a => exact ⟨a, rfl, h.perm_oid hr, h.get?_iff hr⟩
  | error e =>
    rcases ofControls_error_iff.mp hr with ⟨before, c, after, hc, -, hrefused⟩ | ⟨-, hclash⟩
    · exact absurd hrefused (h.noneRefused before c after e hc)
    · exact absurd hclash (h.not_clash e)

/-- A window of a sorted list, asked for under an assertion. -/
theorem Admitted.ofControls_encoded_window :
    let keys : List SortKey := [⟨"sn", none, true⟩, ⟨"cn", some "2.5.13.3", false⟩]
    let view : ListView := ⟨0, 9, .greaterOrEqual [0x61], some [0x01]⟩
    let filter : Filter := .not (.present "cn")
    let sent := [(.listView view, false), (.internalOperation, true), (.sort keys, true), (.assertion filter, true)]
    Sendable .search (sent.map Prod.fst) ∧ ∃ a, ofControls .search (encodeControls sent) = .ok a ∧
      a.get? ControlKind.listView.oid = some (.listView view) ∧
      a.get? ControlKind.sort.oid = some (.sort keys) ∧
      a.get? ControlKind.assertion.oid = some (.assertion filter) := by
  intro keys view filter sent
  have hview : (RequestControl.listView view).Encodable :=
    ⟨nofun, nofun, fun _ hv => Option.some.inj hv ▸ by decide +kernel⟩
  have hinternal : RequestControl.internalOperation.Encodable := ⟨nofun, nofun, nofun⟩
  have hsort : (RequestControl.sort keys).Encodable :=
    ⟨fun _ hk => RequestControl.sort.inj hk ▸ by decide, nofun, fun _ hv => Option.some.inj hv ▸ by decide +kernel⟩
  have hfilter : filter.Decodable := (Filter.decodable_iff (by decide +kernel)).mpr ⟨by decide, rfl⟩
  have hassertion : (RequestControl.assertion filter).Encodable :=
    ⟨nofun, fun _ hf => RequestControl.assertion.inj hf ▸ hfilter, fun _ hv => Option.some.inj hv ▸ by decide +kernel⟩
  have h : Sendable .search (sent.map Prod.fst) :=
    { distinct := by decide
      applies := by decide
      encodable := by simp [sent, hview, hinternal, hsort, hassertion]
      proxiedOnce := by decide
      sorted := by decide
      notPaged := by decide }
  obtain ⟨a, ha, -, hget⟩ := ofControls_encoded h
  exact ⟨h, a, ha, (hget _ _).mpr ⟨rfl, by simp [sent]⟩, (hget _ _).mpr ⟨rfl, by simp [sent]⟩,
    (hget _ _).mpr ⟨rfl, by simp [sent]⟩⟩

end Ldap
