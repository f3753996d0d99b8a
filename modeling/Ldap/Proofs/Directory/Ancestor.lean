import Ldap.Proofs.Directory.Store
import Ldap.Proofs.Dn.Parent

/-! The closest entry above a name. It is looked for on the names above the name, each put together from what is left
of the one before. The walk makes no more steps than the name has relative names. It comes by the keys of all that is
left of the name just if the relative names between the first and the last one keep their ends, and then it ends at
the closest entry with such a key. -/

namespace Ldap.Directory

/-! ### The walk -/

/-- The walk up from a name, with the number of names above it that are looked at, and the name that it ends with. -/
inductive Walk (s : Store) : String → ℕ → String → Prop
  | root {dn} (h : Dn.parent? dn = none) : Walk s dn 0 ""
  | top {dn} (h : Dn.parent? dn = some "") : Walk s dn 1 ""
  | found {dn parent e} (h : Dn.parent? dn = some parent) (hne : parent ≠ "") (he : s.get? parent = some e) :
      Walk s dn 1 e.dn
  | further {dn parent steps name} (h : Dn.parent? dn = some parent) (hne : parent ≠ "") (hs : s.get? parent = none)
      (walk : Walk s parent steps name) : Walk s dn (steps + 1) name

variable {s : Store} {d : Directory} {dn name name' : String} {e : Entry} {k steps steps' : ℕ}

/-- There is one walk from a name. -/
theorem Walk.unique (h : Walk s dn steps name) (h' : Walk s dn steps' name') : steps = steps' ∧ name = name' := by
  induction h generalizing steps' with
  | root h => cases h' <;> simp_all
  | top h => cases h' <;> simp_all
  | found h hne he => cases h' <;> simp_all
  | further h hne hs walk ih =>
    cases h' with
    | further h' hne' hs' walk' =>
      obtain rfl := Option.some.inj (h.symm.trans h')
      obtain ⟨rfl, rfl⟩ := ih walk'
      exact ⟨rfl, rfl⟩
    | root h' => simp_all
    | top h' => simp_all
    | found h' hne' he' => simp_all

/-- With as many steps as there are relative names the walk comes to its end. -/
theorem exists_walk (h : (Dn.split dn).length ≤ steps) :
    ∃ k ≤ (Dn.split dn).length, Walk s dn k (ancestorAmong s steps dn) := by
  induction steps generalizing dn with
  | zero =>
    have hs : Dn.split dn = [] := List.length_eq_zero_iff.mp (by omega)
    exact ⟨0, Nat.zero_le _, .root (Dn.parent?_eq_none_iff.mpr hs)⟩
  | succ steps ih =>
    by_cases hs : Dn.split dn = []
    · have hroot : Dn.parent? dn = none := Dn.parent?_eq_none_iff.mpr hs
      exact ⟨0, Nat.zero_le _, by simpa [ancestorAmong, hroot] using .root hroot⟩
    · have hpos : 0 < (Dn.split dn).length := List.length_pos_iff.mpr hs
      have hparent : Dn.parent? dn = some (Dn.above dn) := Dn.parent?_eq_above hs
      by_cases he : Dn.above dn = ""
      · exact ⟨1, hpos, by simpa [ancestorAmong, hparent, he] using .top (he ▸ hparent)⟩
      · cases hget : s.get? (Dn.above dn) with
        | some e => exact ⟨1, hpos, by simpa [ancestorAmong, hparent, he, hget] using .found hparent he hget⟩
        | none =>
          have hlt : (Dn.split (Dn.above dn)).length < (Dn.split dn).length := Dn.length_split_above_lt hs
          have hle : (Dn.split (Dn.above dn)).length ≤ steps := by omega
          obtain ⟨k, hk, walk⟩ := ih hle
          exact ⟨k + 1, by omega, by simpa [ancestorAmong, hparent, he, hget] using .further hparent he hget walk⟩

theorem closestAncestor_eq (h : Walk d.store dn steps name) : d.closestAncestor dn = name := by
  obtain ⟨_, -, walk⟩ := exists_walk (s := d.store) (Nat.le_refl (Dn.split dn).length)
  exact (walk.unique h).2

/-! ### Where it ends -/

/-- No entry has the key of what is left of a name without some of its first relative names, fewer than the bound. -/
def Vacant (s : Store) (dn : String) (bound : ℕ) : Prop :=
  ∀ j < bound, 0 < j → ∀ e ∈ s.entries, e.key ≠ Dn.suffixKey dn j

instance (s : Store) (dn : String) (bound : ℕ) : Decidable (Vacant s dn bound) :=
  inferInstanceAs (Decidable (∀ j < bound, 0 < j → ∀ e ∈ s.entries, e.key ≠ Dn.suffixKey dn j))

/-- An entry has the key of what is left of a name without the first `k` relative names, and none is closer. -/
structure Nearest (s : Store) (dn : String) (k : ℕ) (e : Entry) : Prop where
  pos : 0 < k
  lt : k < (Dn.split dn).length
  mem : e ∈ s.entries
  key : e.key = Dn.suffixKey dn k
  vacant : Vacant s dn k

section Joinable

variable (hn : Dn.Named dn) (hj : Dn.Joinable dn)
include hn hj

theorem above_ne_empty (h : 1 < (Dn.split dn).length) : Dn.above dn ≠ "" := by
  intro he
  have hsplit : Dn.split (Dn.above dn) = (Dn.split dn).tail := (Dn.split_above_iff hn).mpr hj
  have hlen : (Dn.split dn).tail.length = 0 := by
    rw [← hsplit, he]
    rfl
  rw [List.length_tail] at hlen
  omega

theorem get?_above (h : Vacant s dn 2) : s.get? (Dn.above dn) = none := by
  by_contra hsome
  obtain ⟨e, he⟩ := Option.ne_none_iff_exists'.mp hsome
  obtain ⟨hmem, hkey⟩ := Store.get?_eq_some_iff.mp he
  exact h 1 (by omega) (by omega) e hmem (hkey.trans (Dn.normalize_above hn hj))

theorem Vacant.above (h : Vacant s dn (k + 1)) : Vacant s (Dn.above dn) k := by
  intro j hlt hpos e he
  rw [Dn.suffixKey_above hn hj]
  exact h (j + 1) (by omega) (by omega) e he

theorem walk_nearest (h : Nearest s dn k e) : Walk s dn k e.dn := by
  induction k generalizing dn with
  | zero => exact absurd h.pos (by omega)
  | succ k ih =>
    have hlt : k + 1 < (Dn.split dn).length := h.lt
    have hparent : Dn.parent? dn = some (Dn.above dn) := Dn.parent?_eq_above (List.length_pos_iff.mp (by omega))
    have hne : Dn.above dn ≠ "" := above_ne_empty hn hj (by omega)
    cases k with
    | zero =>
      have hkey : e.key = Dn.normalize (Dn.above dn) := h.key.trans (Dn.normalize_above hn hj).symm
      exact .found hparent hne (Store.get?_eq_some_iff.mpr ⟨h.mem, hkey⟩)
    | succ k =>
      have hget : s.get? (Dn.above dn) = none :=
        get?_above hn hj fun j hlt hpos => h.vacant j (by omega) hpos
      refine .further hparent hne hget (ih (Dn.named_above hn hj) (Dn.joinable_above hn hj) ?_)
      exact {
        pos := by omega
        lt := by
          rw [(Dn.split_above_iff hn).mpr hj, List.length_tail]
          omega
        mem := h.mem
        key := by rw [Dn.suffixKey_above hn hj, h.key]
        vacant := h.vacant.above hn hj }

theorem walk_vacant (h : Vacant s dn (Dn.split dn).length) : Walk s dn (Dn.split dn).length "" := by
  induction hlen : (Dn.split dn).length generalizing dn with
  | zero => exact .root (Dn.parent?_eq_none_iff.mpr (List.length_eq_zero_iff.mp hlen))
  | succ k ih =>
    have hparent : Dn.parent? dn = some (Dn.above dn) := Dn.parent?_eq_above (List.length_pos_iff.mp (by omega))
    have hsplit : Dn.split (Dn.above dn) = (Dn.split dn).tail := (Dn.split_above_iff hn).mpr hj
    have habove : (Dn.split (Dn.above dn)).length = k := by
      rw [hsplit, List.length_tail]
      omega
    rw [hlen] at h
    cases k with
    | zero =>
      have hempty : Dn.above dn = "" := by
        rw [Dn.above_eq, ← hsplit, List.length_eq_zero_iff.mp habove]
        rfl
      exact .top (hempty ▸ hparent)
    | succ k =>
      have hne : Dn.above dn ≠ "" := above_ne_empty hn hj (by omega)
      have hget : s.get? (Dn.above dn) = none := get?_above hn hj fun j hlt hpos => h j (by omega) hpos
      have hvacant : Vacant s (Dn.above dn) (Dn.split (Dn.above dn)).length := habove ▸ h.above hn hj
      exact .further hparent hne hget (ih (Dn.named_above hn hj) (Dn.joinable_above hn hj) hvacant habove)

end Joinable

/-- The names above a name have its relative names but the first, but the first two and so on, and the walk on them
ends at the closest one that is stored, or at the top. -/
structure Ascends (d : Directory) (dn : String) : Prop where
  parent : Dn.split (Dn.above dn) = (Dn.split dn).tail
  visited : ∀ k ≤ (Dn.split dn).length, ∃ name, Dn.ancestor? k dn = some name ∧ Dn.split name = (Dn.split dn).drop k
  ended : ∀ k, (Dn.split dn).length < k → Dn.ancestor? k dn = none
  nearest : ∀ k e, Nearest d.store dn k e → Walk d.store dn k e.dn ∧ d.closestAncestor dn = e.dn
  vacant : Vacant d.store dn (Dn.split dn).length →
    Walk d.store dn (Dn.split dn).length "" ∧ d.closestAncestor dn = ""

theorem Ascends.of_joinable (hn : Dn.Named dn) (hj : Dn.Joinable dn) : d.Ascends dn where
  parent := (Dn.split_above_iff hn).mpr hj
  visited _ := Dn.exists_ancestor? hn hj
  ended _ := Dn.ancestor?_eq_none
  nearest _ _ h := ⟨walk_nearest hn hj h, closestAncestor_eq (walk_nearest hn hj h)⟩
  vacant h := ⟨walk_vacant hn hj h, closestAncestor_eq (walk_vacant hn hj h)⟩

/-- The walk goes by what is left of a name just if the relative names between its first and its last one keep their
ends. In any case it ends after as many steps as there are relative names. -/
theorem ascends_iff (d : Directory) (dn : String) (hn : Dn.Named dn) :
    (d.Ascends dn ↔ Dn.Joinable dn) ∧
      (∃ steps ≤ (Dn.split dn).length, Walk d.store dn steps (d.closestAncestor dn)) ∧
      (Dn.Legible dn → ∀ e : Entry, Dn.Named e.dn → Dn.Legible e.dn →
        ∀ k, e.key = Dn.suffixKey dn k ↔ Dn.rdns e.dn = (Dn.rdns dn).drop k) := by
  refine ⟨⟨fun h => (Dn.split_above_iff hn).mp h.parent, .of_joinable hn⟩, exists_walk (Nat.le_refl _), ?_⟩
  intro hl e hne hle k
  exact Dn.normalize_eq_suffixKey_iff hne hn hle hl k

theorem ascends_iff_people :
    let d : Directory := { bases := ["c=z"], store := (Store.put {} { dn := "C = z" }).put { dn := "o=X\\, y,c=z" } }
    let dn := "cn=q ; ou=\"a, b\", o=x\\, y , c=z"
    Dn.Named dn ∧ d.Ascends dn ∧ Walk d.store dn 2 "o=X\\, y,c=z" ∧ d.closestAncestor dn = "o=X\\, y,c=z" ∧
      Dn.rdns "o=X\\, y,c=z" = (Dn.rdns dn).drop 2 := by
  intro d dn
  have hn : Dn.Named dn := by decide +kernel
  have hj : Dn.Joinable dn := by decide +kernel
  have hascends : d.Ascends dn := (ascends_iff d dn hn).1.mpr hj
  have hnearest : Nearest d.store dn 2 { dn := "o=X\\, y,c=z" } := by
    constructor <;> decide +kernel
  obtain ⟨hwalk, hclosest⟩ := hascends.nearest 2 _ hnearest
  have hl : Dn.Legible dn ∧ Dn.Named "o=X\\, y,c=z" ∧ Dn.Legible "o=X\\, y,c=z" := by decide +kernel
  have hrdns := ((ascends_iff d dn hn).2.2 hl.1 { dn := "o=X\\, y,c=z" } hl.2.1 hl.2.2 2).mp hnearest.key
  exact ⟨hn, hascends, hwalk, hclosest, hrdns⟩

/-- A backslash that is left of an escaped blank takes the next relative name along, and the entry above is missed. -/
theorem not_ascends :
    let d : Directory := { bases := ["c=d"], store := Store.put {} { dn := "c=d" } }
    let dn := "cn=q,o=b\\ ,c=d"
    Dn.Named dn ∧ Dn.split dn = ["cn=q", "o=b\\", "c=d"] ∧ Dn.split (Dn.above dn) = ["o=b\\,c=d"] ∧
      Nearest d.store dn 2 { dn := "c=d" } ∧ d.closestAncestor dn = "" ∧ ¬ d.Ascends dn := by
  intro d dn
  have hn : Dn.Named dn := by decide +kernel
  have hj : ¬ Dn.Joinable dn := by decide +kernel
  have hparent : Dn.split (Dn.above dn) = ["o=b\\,c=d"] := by decide +kernel
  refine ⟨hn, by decide +kernel, hparent, ?_, by decide +kernel, fun h => hj ((Dn.split_above_iff hn).mp h.parent)⟩
  constructor <;> decide +kernel

end Ldap.Directory
