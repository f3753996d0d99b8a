import Ldap.Proofs.Directory.Store
import Ldap.Proofs.Dn.Split

/-! The hierarchy of a directory: every entry lies below a base, and is one itself or has the entry above it stored
too. It stays a hierarchy when an entry is added or edited, and when entries are removed with those below them, if the
key of each name lies within that of the name above it. -/

namespace Ldap

namespace Dn

variable {a b c : String}

theorem isWithin_refl (a : String) : isWithin a a := isWithin_iff.mpr (.inr (.inl rfl))

theorem isWithin_trans (hab : isWithin a b) (hbc : isWithin b c) : isWithin a c := by
  rw [isWithin_iff] at hab hbc ⊢
  rcases hbc with rfl | rfl | hbc
  · exact .inl rfl
  · exact hab
  · rcases hab with rfl | rfl | hab
    · simp at hbc
    · exact .inr (.inr hbc)
    · exact .inr (.inr (hbc.trans ((List.suffix_cons ',' _).trans hab)))

/-- The key of a name lies within that of the name above it. -/
def Nested (dn : String) : Prop := isWithin (normalize dn) (normalize (above dn))

instance (dn : String) : Decidable (Nested dn) := inferInstanceAs (Decidable (_ = true))

theorem Plain.nested {dn : String} (h : Plain dn) : Nested dn := by
  rw [Nested, (h.faithful h.above).within_iff, h.rdns_above]
  exact List.tail_suffix _

end Dn

namespace Directory

variable {d : Directory} {e x : Entry} {dn : String}

/-- An entry lies below a base, and is one or has the entry above it stored too. -/
def Placed (d : Directory) (dn : String) : Prop :=
  d.covers dn ∧ (d.isBase dn ∨ d.store.contains (Dn.above dn))

instance (d : Directory) (dn : String) : Decidable (d.Placed dn) :=
  inferInstanceAs (Decidable (_ ∧ (_ ∨ _)))

/-- Every entry has its place in the hierarchy. -/
def Closed (d : Directory) : Prop := ∀ e ∈ d.store.entries, d.Placed e.dn

instance (d : Directory) : Decidable d.Closed :=
  inferInstanceAs (Decidable (∀ e ∈ d.store.entries, d.Placed e.dn))

/-- No base lies below a name, other than the name itself. -/
def NoBaseBelow (d : Directory) (dn : String) : Prop :=
  ∀ base ∈ d.baseKeys, Dn.isWithin base (Dn.normalize dn) → base = Dn.normalize dn

instance (d : Directory) (dn : String) : Decidable (d.NoBaseBelow dn) :=
  inferInstanceAs (Decidable (∀ base ∈ d.baseKeys, _))

def AllNested (d : Directory) : Prop := ∀ e ∈ d.store.entries, Dn.Nested e.dn

def AllPlain (d : Directory) : Prop := ∀ e ∈ d.store.entries, Dn.Plain e.dn

instance (d : Directory) : Decidable d.AllNested := inferInstanceAs (Decidable (∀ e ∈ d.store.entries, Dn.Nested e.dn))

instance (d : Directory) : Decidable d.AllPlain := inferInstanceAs (Decidable (∀ e ∈ d.store.entries, Dn.Plain e.dn))

/-- Every entry has a name, and its place in the hierarchy. -/
structure Hierarchical (d : Directory) : Prop where
  named : ∀ e ∈ d.store.entries, Dn.split e.dn ≠ []
  closed : d.Closed

/-- A hierarchy of entries with plain names. -/
structure Sound (d : Directory) : Prop extends Hierarchical d where
  plain : d.AllPlain

/-! ### Names and keys -/

theorem key_eq_iff {a b : String} (ha : Dn.Plain a) (hb : Dn.Plain b) :
    Dn.normalize a = Dn.normalize b ↔ Dn.rdns a = Dn.rdns b := (ha.faithful hb).eq_iff

theorem within_iff {a b : String} (ha : Dn.Plain a) (hb : Dn.Plain b) :
    Dn.isWithin (Dn.normalize a) (Dn.normalize b) ↔ Dn.rdns b <:+ Dn.rdns a := (ha.faithful hb).within_iff

namespace Sound

theorem rdns_ne_nil (h : d.Sound) (he : e ∈ d.store.entries) : Dn.rdns e.dn ≠ [] :=
  mt Dn.split_eq_nil_iff.mpr (h.named e he)

/-- The entry above an entry that is no base is stored. -/
theorem exists_above (h : d.Sound) (he : e ∈ d.store.entries) (hb : ¬ d.isBase e.dn) :
    ∃ p ∈ d.store.entries, Dn.rdns p.dn = (Dn.rdns e.dn).tail := by
  obtain ⟨-, hbase | hc⟩ := h.closed e he
  · exact absurd hbase hb
  · obtain ⟨p, hp, hk⟩ := Store.contains_iff.mp hc
    have hplain : Dn.Plain e.dn := h.plain e he
    exact ⟨p, hp, by rw [(key_eq_iff (h.plain p hp) hplain.above).mp hk, hplain.rdns_above]⟩

theorem not_isBase (h : d.Sound) (hdn : Dn.Plain dn) (hb : d.NoBaseBelow dn) (he : e ∈ d.store.entries)
    (hw : Dn.rdns dn <:+ Dn.rdns e.dn) (hne : Dn.rdns dn ≠ Dn.rdns e.dn) : ¬ d.isBase e.dn := by
  intro hbase
  have hmem : Dn.normalize e.dn ∈ d.baseKeys := by simpa [isBase] using hbase
  have hkey : Dn.normalize e.dn = Dn.normalize dn := hb _ hmem ((within_iff (h.plain e he) hdn).mpr hw)
  exact hne ((key_eq_iff (h.plain e he) hdn).mp hkey).symm

/-- A name above an entry is stored if no base lies in between. -/
theorem contains_of_below (h : d.Sound) (hdn : Dn.Plain dn) (hb : d.NoBaseBelow dn) (he : e ∈ d.store.entries)
    (hw : Dn.rdns dn <:+ Dn.rdns e.dn) : d.store.contains dn := by
  -- the induction goes up from the entry, one name at a time
  induction hn : (Dn.rdns e.dn).length using Nat.strong_induction_on generalizing e with
  | _ n ih =>
    by_cases heq : Dn.rdns dn = Dn.rdns e.dn
    · exact Store.contains_iff.mpr ⟨e, he, (key_eq_iff (h.plain e he) hdn).mpr heq.symm⟩
    · obtain ⟨p, hp, hrdns⟩ := h.exists_above he (h.not_isBase hdn hb he hw heq)
      obtain ⟨first, rest, hfirst⟩ := List.exists_cons_of_ne_nil (h.rdns_ne_nil he)
      rw [hfirst] at hw heq hrdns hn
      rw [List.tail_cons] at hrdns
      have hrest : Dn.rdns dn <:+ Dn.rdns p.dn := hrdns ▸ (List.suffix_cons_iff.mp hw).resolve_left heq
      refine ih (Dn.rdns p.dn).length ?_ hp hrest rfl
      rw [hrdns, ← hn, List.length_cons]
      omega

end Sound

/-! ### Adding, editing and removing -/

/-- An entry that does not lie below a name has nothing above it that does. -/
theorem Closed.exists_above_outside (h : d.Closed) {key : String} (hx : x ∈ d.store.entries) (hn : Dn.Nested x.dn)
    (hw : ¬ Dn.isWithin x.key key) (hb : ¬ d.isBase x.dn) :
    ∃ p ∈ d.store.entries, ¬ Dn.isWithin p.key key ∧ p.key = Dn.normalize (Dn.above x.dn) := by
  obtain ⟨-, hbase | hc⟩ := h x hx
  · exact absurd hbase hb
  · obtain ⟨p, hp, hk⟩ := Store.contains_iff.mp hc
    exact ⟨p, hp, fun hwp => hw (Dn.isWithin_trans hn (hk ▸ hwp)), hk⟩

namespace Hierarchical

/-- An entry may be put in its place. -/
theorem put (h : d.Hierarchical) (hn : Dn.split e.dn ≠ []) (hplace : d.Placed e.dn) :
    Hierarchical { d with store := d.store.put e } where
  named x hx := by
    rcases Store.mem_entries_put.mp hx with ⟨hx, -⟩ | rfl
    · exact h.named x hx
    · exact hn
  closed x hx := by
    obtain ⟨hc, hb⟩ : d.Placed x.dn := by
      rcases Store.mem_entries_put.mp hx with ⟨hx, -⟩ | rfl
      · exact h.closed x hx
      · exact hplace
    exact ⟨hc, hb.imp_right Store.contains_put⟩

/-- The order of the entries does not matter. -/
theorem of_perm (h : d.Hierarchical) {store : Store} (hp : store.entries.Perm d.store.entries) :
    Hierarchical { d with store } where
  named x hx := h.named x (hp.mem_iff.mp hx)
  closed x hx := by
    obtain ⟨hc, hb⟩ := h.closed x (hp.mem_iff.mp hx)
    refine ⟨hc, hb.imp_right fun habove => ?_⟩
    obtain ⟨p, hstored, hk⟩ := Store.contains_iff.mp habove
    exact Store.contains_iff.mpr ⟨p, hp.mem_iff.mpr hstored, hk⟩

/-- Entries may be removed together with all below them. -/
theorem remove (h : d.Hierarchical) (hn : d.AllNested) {store : Store} {key : String}
    (hs : ∀ x, x ∈ store.entries ↔ x ∈ d.store.entries ∧ ¬ Dn.isWithin x.key key) :
    Hierarchical { d with store } where
  named x hx := h.named x ((hs x).mp hx).1
  closed x hx := by
    obtain ⟨hx, hw⟩ := (hs x).mp hx
    refine ⟨(h.closed x hx).1, or_iff_not_imp_left.mpr fun hb => ?_⟩
    obtain ⟨p, hp, hkept, hkey⟩ := h.closed.exists_above_outside hx (hn x hx) hw hb
    exact Store.contains_iff.mpr ⟨p, (hs p).mpr ⟨hp, hkept⟩, hkey⟩

end Hierarchical

end Directory

end Ldap
