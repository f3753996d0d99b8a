import Ldap.Proofs.Directory.Hierarchy
import Ldap.Proofs.Entry.Naming
import Ldap.Proofs.Except

/-! Renamings in a hierarchy of plain names. The entries below the renamed one are moved one after the other, and none
of them gets in the way of another, or of an entry elsewhere: whatever lies below the new name would have the new name
itself above it, which is vacant. -/

namespace Ldap

/-- The new name that a request asks for. -/
def ModifyDnRequest.target (r : ModifyDnRequest) : String :=
  Directory.newName r.newRdn (r.newSuperior.getD (Dn.above r.dn))

/-- All names of a request are plain, and the new relative name is a single one. -/
structure ModifyDnRequest.Plain (r : ModifyDnRequest) : Prop where
  dn : Dn.Plain r.dn
  rdn : Dn.Single r.newRdn
  superior : ∀ dn ∈ r.newSuperior, Dn.Plain dn

instance (r : ModifyDnRequest) : Decidable r.Plain :=
  decidable_of_iff (Dn.Plain r.dn ∧ Dn.Single r.newRdn ∧ ∀ dn ∈ r.newSuperior, Dn.Plain dn)
    ⟨fun ⟨hd, hr, hs⟩ => ⟨hd, hr, hs⟩, fun h => ⟨h.dn, h.rdn, h.superior⟩⟩

namespace Directory

variable {d : Directory} {r : ModifyDnRequest} {before after e x : Entry} {dn : String}

/-! ### The checks -/

/-- What a renaming does to the attributes of the entry. -/
def editOf (r : ModifyDnRequest) : Edit := do
  if r.deleteOldRdn then removeOldNaming r.dn (Dn.components r.newRdn)
  Edit.addNaming (Dn.components r.newRdn)

/-- What the checks of a renaming find. -/
structure Planned (d : Directory) (r : ModifyDnRequest) (before after : Entry) : Prop where
  stored : before ∈ d.store.entries
  key_before : before.key = Dn.normalize r.dn
  superior : ∀ dn ∈ r.newSuperior, dn = "" ∨ d.store.contains dn
  dn_after : after.dn = r.target
  named : Dn.components r.newRdn ≠ []
  naming : after.HasNaming (Dn.components r.newRdn)
  notBelow : Dn.isWithin (Dn.normalize r.target) (Dn.normalize r.dn) → Dn.normalize r.target = Dn.normalize r.dn
  vacant : Dn.normalize r.target ≠ Dn.normalize r.dn → ¬ d.store.contains r.target
  covered : d.covers r.target
  edited : (editOf r).apply (before.rename r.target) = .ok after

theorem require_ok (h : d.require dn = .ok e) : e ∈ d.store.entries ∧ e.key = Dn.normalize dn := by
  unfold require at h
  split at h
  · obtain rfl := Except.ok.inj h
    exact Store.get?_eq_some_iff.mp ‹_›
  · cases h

theorem superiorOf_ok {newSuperior : Option String} {superior : String}
    (h : d.superiorOf dn newSuperior = .ok superior) :
    superior = newSuperior.getD (Dn.above dn) ∧ ∀ s ∈ newSuperior, s = "" ∨ d.store.contains s := by
  cases newSuperior with
  | none => exact ⟨(Except.ok.inj h).symm, by simp⟩
  | some s =>
    simp only [superiorOf] at h
    split at h
    · rename_i hs
      refine ⟨(Except.ok.inj h).symm, ?_⟩
      simpa using hs
    · cases h

theorem checkCovered_eq_ok_iff : d.checkCovered dn = .ok () ↔ d.covers dn := by
  unfold checkCovered
  split <;> simp [*]

theorem checkNewName_ok {newDn : String} (h : d.checkNewName dn newDn = .ok ()) :
    (Dn.isWithin (Dn.normalize newDn) (Dn.normalize dn) → Dn.normalize newDn = Dn.normalize dn) ∧
      (Dn.normalize newDn ≠ Dn.normalize dn → ¬ d.store.contains newDn) ∧ d.covers newDn := by
  unfold checkNewName at h
  obtain ⟨hbelow, h⟩ := Except.check_eq_ok_iff.mp h
  obtain ⟨htaken, h⟩ := Except.check_eq_ok_iff.mp h
  exact ⟨by simpa using hbelow, by simpa using htaken, checkCovered_eq_ok_iff.mp h⟩

theorem removeOldNaming_keepsName (dn : String) (components : List Dn.NameValue) :
    Edit.KeepsName (removeOldNaming dn components) :=
  .forM fun _ => .ite (Edit.removeValues_keepsName _ _ _) (.pure _)

theorem planRenaming_ok (h : d.planRenaming r = .ok (before, after)) : d.Planned r before after := by
  unfold planRenaming at h
  obtain ⟨e, he, h⟩ := Except.bind_eq_ok_iff.mp h
  obtain ⟨hc, h⟩ := Except.check_eq_ok_iff.mp h
  obtain ⟨superior, hs, h⟩ := Except.bind_eq_ok_iff.mp h
  obtain ⟨⟨⟩, hn, h⟩ := Except.bind_eq_ok_iff.mp h
  obtain ⟨renamed, ha, h⟩ := Except.bind_eq_ok_iff.mp h
  obtain ⟨rfl, rfl⟩ := Prod.mk.inj (Except.ok.inj h)
  obtain ⟨rfl, hsuperior⟩ := superiorOf_ok hs
  obtain ⟨hmem, hkey⟩ := require_ok he
  obtain ⟨hbelow, hvacant, hcovers⟩ := checkNewName_ok hn
  refine ⟨hmem, hkey, hsuperior, ?_, by simpa using hc, ?_, hbelow, hvacant, hcovers, ha⟩
  · refine Edit.KeepsName.apply ?_ ha
    split
    · exact .bind (removeOldNaming_keepsName _ _) fun _ => Edit.addNaming_keepsName _
    · exact Edit.addNaming_keepsName _
  · -- whatever is removed before, the new values are added last
    split at ha
    · obtain ⟨x, rfl⟩ := Edit.addNaming_last ha
      exact x.hasNaming_withNaming _
    · rw [Edit.addNaming_apply] at ha
      exact Except.ok.inj ha ▸ Entry.hasNaming_withNaming _ _

/-! ### Names -/

/-- The entries below the one to be renamed. -/
def below (d : Directory) (r : ModifyDnRequest) : List Entry :=
  (d.store.subtree r.dn).filter fun e => Dn.normalize e.dn != Dn.normalize r.dn

theorem mem_below : e ∈ d.below r ↔
    e ∈ d.store.entries ∧ Dn.isWithin e.key (Dn.normalize r.dn) ∧ e.key ≠ Dn.normalize r.dn := by
  rw [below, List.mem_filter, Store.mem_subtree, and_assoc, bne_iff_ne]
  rfl

/-- What lies below by its name has more relative names. -/
theorem length_lt_of_suffix (he : e ∈ d.below r) (hs : Dn.rdns r.dn <:+ Dn.rdns e.dn) :
    (Dn.split r.dn).length < (Dn.split e.dn).length := by
  rw [← Dn.length_rdns, ← Dn.length_rdns]
  refine lt_of_le_of_ne hs.length_le fun hl => (mem_below.mp he).2.2 ?_
  rw [Entry.key, Dn.normalize, Dn.normalize, hs.eq_of_length hl]

/-- What a renaming makes of the stored entries: one has the new name, those elsewhere are as they were, and those below
have their own leading relative names in front of the new name. -/
structure Renamed (d : Directory) (r : ModifyDnRequest) (after : Entry) (store : Store) : Prop where
  size : store.size = d.store.size
  mem_iff : ∀ x, x ∈ store.entries ↔ x = after ∨
    x ∈ d.store.entries ∧ ¬ Dn.isWithin x.key (Dn.normalize r.dn) ∨
    ∃ e ∈ d.below r, x = e.rename (Dn.relocated r.dn r.target e.dn)

/-- A renaming that has passed its checks, in a hierarchy of plain names. -/
structure Ready (d : Directory) (r : ModifyDnRequest) (before after : Entry) : Prop
    extends Planned d r before after where
  sound : d.Sound
  plain : r.Plain
  noBaseBelow : d.NoBaseBelow r.target

namespace Ready

variable (h : d.Ready r before after)
include h

theorem rdns_before : Dn.rdns before.dn = Dn.rdns r.dn :=
  (key_eq_iff (h.sound.plain before h.stored) h.plain.dn).mp h.key_before

theorem split_dn_ne_nil : Dn.split r.dn ≠ [] := by
  rw [Ne, Dn.split_eq_nil_iff, ← h.rdns_before]
  exact h.sound.rdns_ne_nil h.stored

/-- The superior name is plain, and it is empty or has relative names. -/
theorem superior_cases : Dn.Plain (r.newSuperior.getD (Dn.above r.dn)) ∧
    (r.newSuperior.getD (Dn.above r.dn) = "" ∨ Dn.split (r.newSuperior.getD (Dn.above r.dn)) ≠ []) := by
  cases hs : r.newSuperior with
  | none => exact ⟨h.plain.dn.above, Dn.above_eq_empty_or h.plain.dn⟩
  | some superior =>
    have hplain : Dn.Plain superior := h.plain.superior superior hs
    refine ⟨hplain, (h.superior superior hs).imp_right fun hc => ?_⟩
    obtain ⟨e, he, hk⟩ := Store.contains_iff.mp hc
    have hrdns : Dn.rdns e.dn = Dn.rdns superior := (key_eq_iff (h.sound.plain e he) hplain).mp hk
    exact mt Dn.split_eq_nil_iff.mp (hrdns ▸ h.sound.rdns_ne_nil he)

theorem plain_target : Dn.Plain r.target :=
  h.plain.rdn.plain_newName h.superior_cases.2 h.superior_cases.1

theorem split_target_ne_nil : Dn.split r.target ≠ [] := by
  rw [ModifyDnRequest.target, h.plain.rdn.split_newName h.superior_cases.2]
  exact List.cons_ne_nil _ _

theorem suffix_of_mem_below (he : e ∈ d.below r) :
    Dn.rdns r.dn <:+ Dn.rdns e.dn ∧ (Dn.split r.dn).length < (Dn.split e.dn).length := by
  obtain ⟨hstored, hw, -⟩ := mem_below.mp he
  have hsuffix : Dn.rdns r.dn <:+ Dn.rdns e.dn := (within_iff (h.sound.plain e hstored) h.plain.dn).mp hw
  exact ⟨hsuffix, length_lt_of_suffix he hsuffix⟩

theorem split_relocated (he : e ∈ d.below r) :
    Dn.split (Dn.relocated r.dn r.target e.dn) = Dn.leading e.dn r.dn ++ Dn.split r.target :=
  Dn.split_relocated (h.sound.plain e (mem_below.mp he).1) h.split_dn_ne_nil (h.suffix_of_mem_below he).2
    h.split_target_ne_nil

/-- The new name of an entry below the renamed one is plain, and has the new name where it had the old one. -/
theorem relocated (he : e ∈ d.below r) : Dn.Plain (Dn.relocated r.dn r.target e.dn) ∧
    ∃ front ≠ [], Dn.rdns e.dn = front ++ Dn.rdns r.dn ∧
      Dn.rdns (Dn.relocated r.dn r.target e.dn) = front ++ Dn.rdns r.target := by
  obtain ⟨hsuffix, hlonger⟩ := h.suffix_of_mem_below he
  have hplain : Dn.Plain e.dn := h.sound.plain e (mem_below.mp he).1
  have hrdns : (Dn.rdns e.dn).take ((Dn.rdns e.dn).length - (Dn.rdns r.dn).length) ++ Dn.rdns r.dn = Dn.rdns e.dn :=
    List.suffix_iff_eq_append.mp hsuffix
  refine ⟨Dn.plain_relocated hplain h.split_dn_ne_nil hlonger h.split_target_ne_nil h.plain_target, _, ?_, hrdns.symm,
    Dn.rdns_relocated hplain h.split_dn_ne_nil hlonger h.split_target_ne_nil⟩
  rw [← List.length_pos_iff, List.length_take, Dn.length_rdns, Dn.length_rdns]
  omega

/-! ### Moving -/

/-- What lies below the new name lies below the old one: the new name is vacant, or the same as the old one. -/
theorem target_of_below (hx : x ∈ d.store.entries) (hw : Dn.rdns r.target <:+ Dn.rdns x.dn) :
    Dn.normalize r.target = Dn.normalize r.dn := by
  by_contra hne
  exact h.vacant hne (h.sound.contains_of_below h.plain_target h.noBaseBelow hx hw)

/-- The entries below the renamed one may be moved one after the other. -/
theorem movable : (d.store.erase r.dn).Movable (d.below r) (Dn.relocated r.dn r.target) where
  nodup := (d.store.nodup_subtree r.dn).filter _
  stored e he := by
    obtain ⟨he, -, hne⟩ := mem_below.mp he
    exact Store.mem_entries_erase.mpr ⟨he, hne⟩
  vacant e he x hx hk := by
    obtain ⟨hplain, front, -, hrdns, hmoved⟩ := h.relocated he
    have hx' : x ∈ d.store.entries := (Store.mem_entries_erase.mp hx).1
    have heq : Dn.rdns x.dn = front ++ Dn.rdns r.target :=
      ((key_eq_iff (h.sound.plain x hx') hplain).mp hk).trans hmoved
    have hsame : Dn.rdns r.target = Dn.rdns r.dn :=
      (key_eq_iff h.plain_target h.plain.dn).mp (h.target_of_below hx' ⟨front, heq.symm⟩)
    have he' : e ∈ d.store.entries := (mem_below.mp he).1
    refine Store.eq_of_key hx' he' ((key_eq_iff (h.sound.plain x hx') (h.sound.plain e he')).mpr ?_)
    rw [heq, hsame, hrdns]
  apart e he x hx hk := by
    obtain ⟨hplain, front, -, hrdns, hmoved⟩ := h.relocated he
    obtain ⟨hplain', front', -, hrdns', hmoved'⟩ := h.relocated hx
    have hfront : front = front' := by
      have heq := (key_eq_iff hplain hplain').mp hk
      rw [hmoved, hmoved'] at heq
      exact List.append_cancel_right heq
    have he' : e ∈ d.store.entries := (mem_below.mp he).1
    have hx' : x ∈ d.store.entries := (mem_below.mp hx).1
    refine Store.eq_of_key he' hx' ((key_eq_iff (h.sound.plain e he') (h.sound.plain x hx')).mpr ?_)
    rw [hrdns, hrdns', hfront]

theorem movedName (he : e ∈ d.below r) : movedName? r.dn r.target e.dn = some (Dn.relocated r.dn r.target e.dn) :=
  Dn.movedName?_eq (h.suffix_of_mem_below he).2.le

/-- What is in the store when the entries below the renamed one are moved and that itself is taken away. -/
theorem mem_moved : x ∈ ((d.store.erase r.dn).moveAll (d.below r) (Dn.relocated r.dn r.target)).entries ↔
    x ∈ d.store.entries ∧ ¬ Dn.isWithin x.key (Dn.normalize r.dn) ∨
    ∃ e ∈ d.below r, x = e.rename (Dn.relocated r.dn r.target e.dn) := by
  rw [h.movable.mem_moveAll, Store.mem_entries_erase, and_assoc]
  refine or_congr_left (and_congr_right fun hx => ?_)
  constructor
  · exact fun ⟨hne, hnot⟩ hw => hnot (mem_below.mpr ⟨hx, hw, hne⟩)
  · exact fun hw => ⟨fun hk => hw (hk ▸ Dn.isWithin_refl _), fun hmem => hw (mem_below.mp hmem).2.1⟩

/-- The new key is vacant at the end. -/
theorem key_vacant (hx : x ∈ ((d.store.erase r.dn).moveAll (d.below r) (Dn.relocated r.dn r.target)).entries) :
    x.key ≠ after.key := by
  have hkey : after.key = Dn.normalize r.target := by rw [Entry.key, h.dn_after]
  rw [hkey]
  intro hk
  rcases h.mem_moved.mp hx with ⟨hx, hw⟩ | ⟨e, he, rfl⟩
  · have heq : Dn.rdns x.dn = Dn.rdns r.target := (key_eq_iff (h.sound.plain x hx) h.plain_target).mp hk
    have hsuffix : Dn.rdns r.target <:+ Dn.rdns x.dn := heq ▸ List.suffix_refl _
    exact hw (h.target_of_below hx hsuffix ▸ hk ▸ Dn.isWithin_refl _)
  · obtain ⟨hplain, front, hne, -, hmoved⟩ := h.relocated he
    have heq : Dn.rdns (Dn.relocated r.dn r.target e.dn) = Dn.rdns r.target :=
      (key_eq_iff hplain h.plain_target).mp hk
    rw [hmoved] at heq
    exact hne (List.append_left_eq_self.mp heq)

/-- A renaming that has passed its checks comes to an end. -/
theorem moveSubtree_ok : ∃ store, moveSubtree d.store r.dn after = .ok store ∧ d.Renamed r after store := by
  have hbelow : moveBelow r.dn after.dn (d.below r) (d.store.erase r.dn) =
      .ok ((d.store.erase r.dn).moveAll (d.below r) (Dn.relocated r.dn r.target)) :=
    moveBelow_eq fun e he => h.dn_after ▸ h.movedName he
  refine ⟨_, by rw [moveSubtree, ← below, hbelow]; rfl, ?_, fun x => ?_⟩
  · have hvacant : after.key ∉ ((d.store.erase r.dn).moveAll (d.below r) (Dn.relocated r.dn r.target)).keys := by
      rw [Store.keys, List.mem_map]
      rintro ⟨x, hx, hk⟩
      exact h.key_vacant hx hk
    have hstored : Dn.normalize r.dn ∈ d.store.keys := h.key_before ▸ List.mem_map_of_mem h.stored
    rw [Store.size_put hvacant, h.movable.size_moveAll, Store.size_erase hstored]
  · rw [Store.mem_entries_put, or_comm, ← h.mem_moved]
    exact or_congr_right (and_iff_left_of_imp h.key_vacant)

/-! ### The hierarchy -/

variable {store : Store} (hr : d.Renamed r after store)
include hr

theorem placed_after (hplace : d.isBase r.target ∨ d.store.contains (Dn.above r.target)) :
    Placed { d with store } after.dn := by
  rw [h.dn_after]
  refine ⟨h.covered, hplace.imp_right fun hc => ?_⟩
  obtain ⟨p, hp, hk⟩ := Store.contains_iff.mp hc
  have hrdns : Dn.rdns p.dn = (Dn.rdns r.target).tail := by
    rw [(key_eq_iff (h.sound.plain p hp) h.plain_target.above).mp hk]
    exact h.plain_target.rdns_above
  -- the entry above the new name is not moved itself, for then the new name would lie below the old one
  have hkept : ¬ Dn.isWithin p.key (Dn.normalize r.dn) := by
    intro hw
    have hsuffix : Dn.rdns r.dn <:+ (Dn.rdns r.target).tail :=
      hrdns ▸ (within_iff (h.sound.plain p hp) h.plain.dn).mp hw
    have hkey := h.notBelow ((within_iff h.plain_target h.plain.dn).mpr (hsuffix.trans (List.tail_suffix _)))
    rw [← (key_eq_iff h.plain_target h.plain.dn).mp hkey] at hsuffix
    have hlength := hsuffix.length_le
    have hpos : 0 < (Dn.rdns r.target).length := by
      rw [Dn.length_rdns]
      exact List.length_pos_iff.mpr h.split_target_ne_nil
    rw [List.length_tail] at hlength
    omega
  exact Store.contains_iff.mpr ⟨p, (hr.mem_iff p).mpr (.inr (.inl ⟨hp, hkept⟩)), hk⟩

theorem placed_outside (hx : x ∈ d.store.entries) (hw : ¬ Dn.isWithin x.key (Dn.normalize r.dn)) :
    Placed { d with store } x.dn := by
  refine ⟨(h.sound.closed x hx).1, or_iff_not_imp_left.mpr fun hb => ?_⟩
  obtain ⟨p, hp, hkept, hkey⟩ := h.sound.closed.exists_above_outside hx (h.sound.plain x hx).nested hw hb
  exact Store.contains_iff.mpr ⟨p, (hr.mem_iff p).mpr (.inr (.inl ⟨hp, hkept⟩)), hkey⟩

theorem placed_relocated (hold : d.NoBaseBelow r.dn) (he : e ∈ d.below r) :
    Placed { d with store } (Dn.relocated r.dn r.target e.dn) := by
  obtain ⟨hplain, front, hne, hrdns, hmoved⟩ := h.relocated he
  have he' : e ∈ d.store.entries := (mem_below.mp he).1
  constructor
  · have hw : Dn.isWithin (Dn.normalize (Dn.relocated r.dn r.target e.dn)) (Dn.normalize r.target) :=
      (within_iff hplain h.plain_target).mpr ⟨front, hmoved.symm⟩
    obtain ⟨base, hbase, hcovers⟩ := List.any_eq_true.mp h.covered
    exact List.any_eq_true.mpr ⟨base, hbase, Dn.isWithin_trans hw hcovers⟩
  · right
    have hbase : ¬ d.isBase e.dn := by
      refine h.sound.not_isBase h.plain.dn hold he' ⟨front, hrdns.symm⟩ fun heq => hne ?_
      rw [hrdns] at heq
      exact List.append_left_eq_self.mp heq.symm
    obtain ⟨p, hp, hp'⟩ := h.sound.exists_above he' hbase
    have habove : Dn.rdns (Dn.above (Dn.relocated r.dn r.target e.dn)) = front.tail ++ Dn.rdns r.target := by
      rw [hplain.rdns_above, hmoved, List.tail_append_of_ne_nil hne]
    rw [hrdns, List.tail_append_of_ne_nil hne] at hp'
    by_cases htop : front.tail = []
    · -- the entry lies directly below the renamed one
      refine Store.contains_iff.mpr ⟨after, (hr.mem_iff after).mpr (.inl rfl), ?_⟩
      rw [Entry.key, h.dn_after, key_eq_iff h.plain_target hplain.above, habove, htop, List.nil_append]
    · have hbelow : p ∈ d.below r := by
        refine mem_below.mpr ⟨hp, (within_iff (h.sound.plain p hp) h.plain.dn).mpr ⟨_, hp'.symm⟩, fun hk => htop ?_⟩
        have heq := (key_eq_iff (h.sound.plain p hp) h.plain.dn).mp hk
        rw [hp'] at heq
        exact List.append_left_eq_self.mp heq
      obtain ⟨hplain', front', -, hrdns', hmoved'⟩ := h.relocated hbelow
      have hfront : front' = front.tail := List.append_cancel_right (hrdns'.symm.trans hp')
      refine Store.contains_iff.mpr ⟨_, (hr.mem_iff _).mpr (.inr (.inr ⟨p, hbelow, rfl⟩)), ?_⟩
      rw [Store.key_rename, key_eq_iff hplain' hplain.above, hmoved', hfront, habove]

/-- A renaming keeps the hierarchy if the new name has its place there and no base lies below the old one. -/
theorem sound_renamed (hplace : d.isBase r.target ∨ d.store.contains (Dn.above r.target)) (hold : d.NoBaseBelow r.dn) :
    Sound { d with store } where
  plain x hx := by
    rcases (hr.mem_iff x).mp hx with rfl | ⟨hx, -⟩ | ⟨e, he, rfl⟩
    · exact h.dn_after ▸ h.plain_target
    · exact h.sound.plain x hx
    · exact (h.relocated he).1
  named x hx := by
    rcases (hr.mem_iff x).mp hx with rfl | ⟨hx, -⟩ | ⟨e, he, rfl⟩
    · exact h.dn_after ▸ h.split_target_ne_nil
    · exact h.sound.named x hx
    · obtain ⟨-, front, hne, -, hmoved⟩ := h.relocated he
      rw [Entry.dn_rename, Ne, Dn.split_eq_nil_iff, hmoved]
      simp [hne]
  closed x hx := by
    rcases (hr.mem_iff x).mp hx with rfl | ⟨hx, hw⟩ | ⟨e, he, rfl⟩
    · exact h.placed_after hr hplace
    · exact h.placed_outside hr hx hw
    · exact h.placed_relocated hr hold he

end Ready

end Directory

end Ldap
