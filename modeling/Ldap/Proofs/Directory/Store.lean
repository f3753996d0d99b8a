import Ldap.Directory.Update
import Mathlib.Data.List.Nodup

/-! The entries of a store, seen through their keys, and what becomes of them when some are moved. Moving entries one
after the other loses none if every new key is vacant, or the old key of the very entry that moves there. -/

namespace Ldap

/-- The key under which an entry is kept. -/
def Entry.key (e : Entry) : String := Dn.normalize e.dn

theorem Record.key_eq_entry (r : Record) : r.key = r.entry.key := r.key_eq

namespace Store

variable {s : Store} {e x y : Entry} {dn key : String}

def keys (s : Store) : List String := s.entries.map (·.key)

theorem keys_eq (s : Store) : s.keys = s.records.map (·.key) := by
  rw [keys, entries, List.map_map]
  exact List.map_congr_left fun r _ => r.key_eq_entry.symm

theorem nodup_keys (s : Store) : s.keys.Nodup := by
  rw [keys_eq, List.Nodup, List.pairwise_map]
  exact s.distinct

/-- No two entries have the same key. -/
theorem eq_of_key (hx : x ∈ s.entries) (hy : y ∈ s.entries) (h : x.key = y.key) : x = y :=
  List.inj_on_of_nodup_map s.nodup_keys hx hy h

theorem size_eq (s : Store) : s.size = s.keys.length := by
  rw [keys_eq, List.length_map]
  rfl

/-! ### Looking up -/

theorem get?_eq_some_iff : s.get? dn = some e ↔ e ∈ s.entries ∧ e.key = Dn.normalize dn := by
  constructor
  · intro h
    obtain ⟨r, hr, rfl⟩ := Option.map_eq_some_iff.mp h
    have hkey : r.key = Dn.normalize dn := by simpa using List.find?_some hr
    exact ⟨List.mem_map_of_mem (List.mem_of_find?_eq_some hr), r.key_eq_entry ▸ hkey⟩
  · rintro ⟨he, hk⟩
    have hsome : (s.get? dn).isSome := by
      obtain ⟨r, hr, rfl⟩ := List.mem_map.mp he
      simp only [get?, Option.isSome_map, List.isSome_find?, List.any_eq_true, beq_iff_eq]
      exact ⟨r, hr, r.key_eq_entry.trans hk⟩
    obtain ⟨x, hx⟩ := Option.isSome_iff_exists.mp hsome
    obtain ⟨r, hr, rfl⟩ := Option.map_eq_some_iff.mp hx
    have hkey : r.key = Dn.normalize dn := by simpa using List.find?_some hr
    have hmem : r.entry ∈ s.entries := List.mem_map_of_mem (List.mem_of_find?_eq_some hr)
    rw [hx, eq_of_key hmem he (by rw [hk, ← r.key_eq_entry, hkey])]

theorem contains_iff : s.contains dn ↔ ∃ e ∈ s.entries, e.key = Dn.normalize dn := by
  simp only [contains, Option.isSome_iff_exists, get?_eq_some_iff]

theorem mem_subtree : x ∈ s.subtree dn ↔ x ∈ s.entries ∧ Dn.isWithin x.key (Dn.normalize dn) := by
  simp only [subtree, entries, List.mem_map, List.mem_filter]
  constructor
  · rintro ⟨r, ⟨hr, hw⟩, rfl⟩
    exact ⟨⟨r, hr, rfl⟩, r.key_eq_entry ▸ hw⟩
  · rintro ⟨⟨r, hr, rfl⟩, hw⟩
    exact ⟨r, ⟨hr, r.key_eq_entry ▸ hw⟩, rfl⟩

theorem nodup_subtree (s : Store) (dn : String) : (s.subtree dn).Nodup := by
  have hsub : (s.subtree dn).Sublist s.entries := List.filter_sublist.map _
  exact hsub.nodup (List.Nodup.of_map _ s.nodup_keys)

/-! ### Updating -/

theorem mem_entries_eraseKey : x ∈ (s.eraseKey key).entries ↔ x ∈ s.entries ∧ x.key ≠ key := by
  simp only [entries, List.mem_map, mem_eraseKey]
  constructor
  · rintro ⟨r, ⟨hr, hk⟩, rfl⟩
    exact ⟨⟨r, hr, rfl⟩, fun h => hk (r.key_eq.trans h)⟩
  · rintro ⟨⟨r, hr, rfl⟩, hk⟩
    exact ⟨r, ⟨hr, fun h => hk (r.key_eq.symm.trans h)⟩, rfl⟩

theorem mem_entries_erase : x ∈ (s.erase dn).entries ↔ x ∈ s.entries ∧ x.key ≠ Dn.normalize dn :=
  mem_entries_eraseKey

theorem mem_entries_put : x ∈ (s.put e).entries ↔ x ∈ s.entries ∧ x.key ≠ e.key ∨ x = e := by
  have hput : (s.put e).entries = (s.eraseKey e.key).entries ++ [e] := by simp [entries, put, Entry.key]
  rw [hput, List.mem_append, mem_entries_eraseKey, List.mem_singleton]

theorem entries_put_of_vacant (h : ¬ s.contains e.dn) : (s.put e).entries = s.entries ++ [e] := by
  have hkept : s.records.filter (·.key != Dn.normalize e.dn) = s.records := by
    refine List.filter_eq_self.mpr fun r hr => bne_iff_ne.mpr fun hk => h ?_
    exact contains_iff.mpr ⟨r.entry, List.mem_map_of_mem hr, r.key_eq_entry.symm.trans hk⟩
  simp [entries, put, eraseKey, hkept]

theorem get?_put : (s.put e).get? dn = if e.key = Dn.normalize dn then some e else s.get? dn := by
  split
  · rename_i h
    exact get?_eq_some_iff.mpr ⟨mem_entries_put.mpr (.inr rfl), h⟩
  · rename_i h
    ext x
    simp only [get?_eq_some_iff, mem_entries_put]
    constructor
    · rintro ⟨⟨hx, -⟩ | rfl, hk⟩
      · exact ⟨hx, hk⟩
      · exact absurd hk h
    · rintro ⟨hx, hk⟩
      exact ⟨.inl ⟨hx, fun he => h (he.symm.trans hk)⟩, hk⟩

theorem contains_put (h : s.contains dn) : (s.put e).contains dn := by
  obtain ⟨x, hx, hk⟩ := contains_iff.mp h
  by_cases hne : x.key = e.key
  · exact contains_iff.mpr ⟨e, mem_entries_put.mpr (.inr rfl), hne ▸ hk⟩
  · exact contains_iff.mpr ⟨x, mem_entries_put.mpr (.inl ⟨hx, hne⟩), hk⟩

theorem mem_entries_foldl_erase {es : List Entry} :
    x ∈ (es.foldl (fun s e => s.erase e.dn) s).entries ↔ x ∈ s.entries ∧ ∀ e ∈ es, x.key ≠ e.key := by
  induction es generalizing s with
  | nil => simp
  | cons e es ih =>
    rw [List.foldl_cons, ih, mem_entries_erase, List.forall_mem_cons, and_assoc]
    rfl

/-- What remains when all entries at or below a name are removed. -/
theorem mem_entries_erase_subtree :
    x ∈ ((s.subtree dn).foldl (fun s e => s.erase e.dn) s).entries ↔
      x ∈ s.entries ∧ ¬ Dn.isWithin x.key (Dn.normalize dn) := by
  rw [mem_entries_foldl_erase]
  refine and_congr_right fun hx => ⟨fun h hw => h x (mem_subtree.mpr ⟨hx, hw⟩) rfl, fun h e he hk => ?_⟩
  exact h (hk ▸ (mem_subtree.mp he).2)

theorem keys_eraseKey : (s.eraseKey key).keys = s.keys.erase key := by
  rw [s.nodup_keys.erase_eq_filter, keys_eq, keys_eq, List.filter_map]
  rfl

theorem keys_erase : (s.erase dn).keys = s.keys.erase (Dn.normalize dn) := keys_eraseKey

theorem keys_put : (s.put e).keys = s.keys.erase e.key ++ [e.key] := by
  have hput : (s.put e).keys = (s.eraseKey e.key).keys ++ [e.key] := by simp [keys, entries, put, Entry.key]
  rw [hput, keys_eraseKey]

theorem size_erase (h : Dn.normalize dn ∈ s.keys) : (s.erase dn).size + 1 = s.size := by
  rw [size_eq, size_eq, keys_erase, List.length_erase_of_mem h]
  have hpos : 0 < s.keys.length := List.length_pos_of_mem h
  omega

theorem size_put (h : e.key ∉ s.keys) : (s.put e).size = s.size + 1 := by
  rw [size_eq, size_eq, keys_put, List.erase_of_not_mem h]
  simp

theorem size_put_le (s : Store) (e : Entry) : (s.put e).size ≤ s.size + 1 := by
  rw [size_eq, size_eq, keys_put, List.length_append]
  exact Nat.succ_le_succ List.length_erase_le

theorem mem_keys_put (h : key ∈ s.keys) : key ∈ (s.put e).keys := by
  rw [keys_put, List.mem_append, List.mem_singleton]
  by_cases hk : key = e.key
  · exact .inr hk
  · exact .inl ((List.mem_erase_of_ne hk).mpr h)

/-! ### Moving -/

/-- Takes an entry away and puts it back under another name. -/
def move (s : Store) (e : Entry) (name : String) : Store := (s.erase e.dn).put (e.rename name)

def moveAll (s : Store) (es : List Entry) (name : String → String) : Store :=
  es.foldl (fun s e => s.move e (name e.dn)) s

/-- Entries may be moved one after the other: each new key is vacant, but for the entry that moves there, and no two
have the same new key. -/
structure Movable (s : Store) (es : List Entry) (name : String → String) : Prop where
  nodup : es.Nodup
  stored : ∀ e ∈ es, e ∈ s.entries
  vacant : ∀ e ∈ es, ∀ x ∈ s.entries, x.key = Dn.normalize (name e.dn) → x = e
  apart : ∀ e ∈ es, ∀ x ∈ es, Dn.normalize (name e.dn) = Dn.normalize (name x.dn) → e = x

variable {es : List Entry} {name : String → String}

theorem key_rename (e : Entry) (dn : String) : (e.rename dn).key = Dn.normalize dn := rfl

namespace Movable

theorem mem_move (h : s.Movable (e :: es) name) :
    x ∈ (s.move e (name e.dn)).entries ↔ x ∈ s.entries ∧ x ≠ e ∨ x = e.rename (name e.dn) := by
  have he : e ∈ s.entries := h.stored e (by simp)
  rw [move, mem_entries_put, mem_entries_erase, key_rename]
  constructor
  · rintro (⟨⟨hx, hk⟩, -⟩ | rfl)
    · exact .inl ⟨hx, fun heq => hk (heq ▸ rfl)⟩
    · exact .inr rfl
  · rintro (⟨hx, hne⟩ | rfl)
    · exact .inl ⟨⟨hx, fun hk => hne (eq_of_key hx he hk)⟩, fun hk => hne (h.vacant e (by simp) x hx hk)⟩
    · exact .inr rfl

theorem size_move (h : s.Movable (e :: es) name) : (s.move e (name e.dn)).size = s.size := by
  have he : e ∈ s.entries := h.stored e (by simp)
  have hvacant : (e.rename (name e.dn)).key ∉ (s.erase e.dn).keys := by
    rw [keys, List.mem_map]
    rintro ⟨x, hx, hk⟩
    obtain ⟨hx, hne⟩ := mem_entries_erase.mp hx
    exact hne (congrArg Entry.key (h.vacant e (by simp) x hx hk))
  rw [move, size_put hvacant, size_erase (List.mem_map_of_mem he)]

/-- Behind one move the others may still be made. -/
theorem tail (h : s.Movable (e :: es) name) : (s.move e (name e.dn)).Movable es name where
  nodup := h.nodup.of_cons
  stored x hx := h.mem_move.mpr (.inl ⟨h.stored x (List.mem_cons_of_mem _ hx), fun heq =>
    (List.nodup_cons.mp h.nodup).1 (heq ▸ hx)⟩)
  vacant y hy x hx hk := by
    rcases h.mem_move.mp hx with ⟨hx, -⟩ | rfl
    · exact h.vacant y (List.mem_cons_of_mem _ hy) x hx hk
    · obtain rfl : e = y := h.apart e (by simp) y (List.mem_cons_of_mem _ hy) hk
      exact absurd hy (List.nodup_cons.mp h.nodup).1
  apart x hx y hy := h.apart x (List.mem_cons_of_mem _ hx) y (List.mem_cons_of_mem _ hy)

/-- The moves of a whole list leave the other entries as they are, and lose none. -/
theorem mem_moveAll (h : s.Movable es name) :
    x ∈ (s.moveAll es name).entries ↔ x ∈ s.entries ∧ x ∉ es ∨ ∃ e ∈ es, x = e.rename (name e.dn) := by
  induction es generalizing s with
  | nil => simp [moveAll]
  | cons e es ih =>
    rw [show s.moveAll (e :: es) name = (s.move e (name e.dn)).moveAll es name from rfl, ih h.tail, h.mem_move]
    constructor
    · rintro (⟨⟨hx, hne⟩ | rfl, hnot⟩ | ⟨y, hy, rfl⟩)
      · exact .inl ⟨hx, List.not_mem_cons_of_ne_of_not_mem hne hnot⟩
      · exact .inr ⟨e, by simp, rfl⟩
      · exact .inr ⟨y, List.mem_cons_of_mem _ hy, rfl⟩
    · rintro (⟨hx, hnot⟩ | ⟨y, hy, rfl⟩)
      · exact .inl ⟨.inl ⟨hx, List.ne_of_not_mem_cons hnot⟩, fun hmem => hnot (List.mem_cons_of_mem _ hmem)⟩
      · rcases List.mem_cons.mp hy with rfl | hy
        · -- an entry still to be moved is not the one that was moved last
          refine .inl ⟨.inr rfl, fun hin => ?_⟩
          have heq := h.vacant y (by simp) _ (h.stored _ (List.mem_cons_of_mem _ hin)) (key_rename _ _)
          exact (List.nodup_cons.mp h.nodup).1 (heq ▸ hin)
        · exact .inr ⟨y, hy, rfl⟩

theorem size_moveAll (h : s.Movable es name) : (s.moveAll es name).size = s.size := by
  induction es generalizing s with
  | nil => rfl
  | cons e es ih => exact (ih h.tail).trans h.size_move

end Movable

end Store

namespace Directory

variable {dn newDn : String} {es : List Entry} {s : Store}

/-- Where moving breaks off, no more entries are left than before, and one is missing. -/
theorem size_of_moveBelow_error {s' : Store} (hs : ∀ e ∈ es, e.key ∈ s.keys) (hd : (es.map Entry.key).Nodup)
    (h : moveBelow dn newDn es s = .error s') : s'.size < s.size := by
  induction es generalizing s with
  | nil => cases h
  | cons e es ih =>
    obtain ⟨hnew, hd⟩ := List.nodup_cons.mp hd
    have herase : (s.erase e.dn).size + 1 = s.size := Store.size_erase (hs e List.mem_cons_self)
    rw [moveBelow] at h
    split at h
    · rename_i name _
      have hput := (s.erase e.dn).size_put_le (e.rename name)
      have hrest : ∀ x ∈ es, x.key ∈ ((s.erase e.dn).put (e.rename name)).keys := by
        intro x hx
        have hne : x.key ≠ e.key := fun hk => hnew (hk ▸ List.mem_map_of_mem hx)
        refine Store.mem_keys_put ?_
        rw [Store.keys_erase]
        exact (List.mem_erase_of_ne hne).mpr (hs x (List.mem_cons_of_mem e hx))
      have := ih hrest hd h
      omega
    · cases h
      omega

/-- Entries that all have a new name are moved one after the other. -/
theorem moveBelow_eq {name : String → String} (h : ∀ e ∈ es, movedName? dn newDn e.dn = some (name e.dn)) :
    moveBelow dn newDn es s = .ok (s.moveAll es name) := by
  induction es generalizing s with
  | nil => rfl
  | cons e es ih =>
    rw [moveBelow, h e (by simp)]
    exact ih fun x hx => h x (List.mem_cons_of_mem _ hx)

end Directory

end Ldap
