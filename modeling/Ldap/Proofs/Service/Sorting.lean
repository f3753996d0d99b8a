import Ldap.Service.Window
import Mathlib.Data.String.Basic
import Mathlib.Order.Compare

/-! Entries sorted by keys. An entry comes before another one by a key if its least text under the attribute is less, or
its greatest is greater for a key in reverse, and entries without a text come after all that have one either way. Of
several keys the first that tells two entries apart decides. For any keys this is a strict weak order, so that there is
just one way to put entries in it that leaves those in their order which no key tells apart. -/

namespace Ldap

/-! ### Stable sorting -/

section Stable

variable {α : Type} {before : α → α → Prop} [DecidableRel before] {cmp : α → α → Ordering} {l sorted other : List α}

/-- Neither comes before the other. -/
def Tied (before : α → α → Prop) (a b : α) : Prop := ¬ before a b ∧ ¬ before b a

instance : DecidableRel (Tied before) := fun a b => inferInstanceAs (Decidable (¬ before a b ∧ ¬ before b a))

/-- The list has what the other one has, with nothing behind what it comes before, and what is tied is in the order
that it had. -/
structure StablySorted (before : α → α → Prop) [DecidableRel before] (l sorted : List α) : Prop where
  perm : sorted.Perm l
  ordered : sorted.Pairwise fun a b => ¬ before b a
  stable : ∀ a, sorted.filter (Tied before a ·) = l.filter (Tied before a ·)

theorem eq_of_ordered (hirrefl : ∀ a, ¬ before a a) (hp : sorted.Perm other)
    (hs : sorted.Pairwise fun a b => ¬ before b a) (ho : other.Pairwise fun a b => ¬ before b a)
    (htied : ∀ a, sorted.filter (Tied before a ·) = other.filter (Tied before a ·)) : sorted = other := by
  induction sorted generalizing other with
  | nil => exact hp.nil_eq
  | cons a sorted ih =>
    cases other with
    | nil => exact hp.eq_nil
    | cons b other =>
      rw [List.pairwise_cons] at hs ho
      -- each head is in the other list, so that neither comes before the other
      have hab : ¬ before a b := by
        rcases List.mem_cons.mp (hp.subset List.mem_cons_self) with rfl | ha
        · exact hirrefl _
        · exact ho.1 a ha
      have hba : ¬ before b a := by
        rcases List.mem_cons.mp (hp.symm.subset List.mem_cons_self) with rfl | hb
        · exact hirrefl _
        · exact hs.1 b hb
      have htied_ab : Tied before a b := ⟨hab, hba⟩
      have htied_aa : Tied before a a := ⟨hirrefl a, hirrefl a⟩
      obtain ⟨rfl, -⟩ : a = b ∧ sorted.filter (Tied before a ·) = other.filter (Tied before a ·) := by
        simpa [List.filter_cons, htied_ab, htied_aa] using htied a
      rw [ih (List.perm_cons a |>.mp hp) hs.2 ho.2 fun c => ?_]
      have hc := htied c
      rw [List.filter_cons, List.filter_cons] at hc
      split at hc
      · exact (List.cons.inj hc).2
      · exact hc

omit [DecidableRel before] in
theorem tied_iff [Std.OrientedCmp cmp] (hcmp : ∀ a b, before a b ↔ cmp a b = .lt) {a b : α} :
    Tied before a b ↔ cmp a b = .eq := by
  have hswap : cmp b a = (cmp a b).swap := Std.OrientedCmp.eq_swap
  rw [Tied, hcmp, hcmp, hswap]
  cases cmp a b <;> simp

omit [DecidableRel before] in
theorem isStrictWeakOrder_of_cmp [Std.TransCmp cmp] (hcmp : ∀ a b, before a b ↔ cmp a b = .lt) :
    IsStrictWeakOrder α before where
  irrefl a := by simp [hcmp, Std.ReflCmp.compare_self]
  trans a b c hab hbc := (hcmp a c).mpr (Std.TransCmp.lt_trans ((hcmp a b).mp hab) ((hcmp b c).mp hbc))
  incomp_trans _ _ _ hab hbc :=
    (tied_iff hcmp).mpr (Std.TransCmp.eq_trans ((tied_iff hcmp).mp hab) ((tied_iff hcmp).mp hbc))

theorem stablySorted_mergeSort [Std.TransCmp cmp] (hcmp : ∀ a b, before a b ↔ cmp a b = .lt) (l : List α) :
    StablySorted before l (l.mergeSort fun a b => cmp a b != .gt) := by
  have hle : ∀ {a b : α}, (cmp a b != .gt) = true ↔ (cmp a b).isLE := by
    intro a b
    cases cmp a b <;> decide
  have htrans : ∀ a b c : α, (cmp a b != .gt) = true → (cmp b c != .gt) = true → (cmp a c != .gt) = true := by
    intro a b c hab hbc
    exact hle.mpr (Std.TransCmp.isLE_trans (hle.mp hab) (hle.mp hbc))
  have htotal : ∀ a b : α, (cmp a b != .gt || cmp b a != .gt) = true := by
    intro a b
    have hswap : cmp b a = (cmp a b).swap := Std.OrientedCmp.eq_swap
    rw [hswap]
    cases cmp a b <;> decide
  refine ⟨List.mergeSort_perm l _, (List.pairwise_mergeSort htrans htotal l).imp fun {a b} h => ?_, fun a => ?_⟩
  · rw [hcmp, ← @Std.OrientedCmp.gt_iff_lt _ cmp]
    simpa using h
  · have htied : (l.filter (Tied before a ·)).Pairwise fun b c => (cmp b c != .gt) = true := by
      refine List.pairwise_of_forall_mem_list fun b hb c hc => hle.mpr ?_
      rw [List.mem_filter, decide_eq_true_iff, tied_iff hcmp] at hb hc
      rw [Std.TransCmp.eq_trans (Std.OrientedCmp.eq_symm hb.2) hc.2]
      rfl
    have hsub := (List.sublist_mergeSort htrans htotal htied List.filter_sublist).filter (Tied before a ·)
    simp only [List.filter_filter, Bool.and_self] at hsub
    exact (hsub.eq_of_length ((List.mergeSort_perm l _).filter _).length_eq.symm).symm

/-- Merging puts a list in the one order in which it is stably sorted. -/
theorem eq_mergeSort_iff [Std.TransCmp cmp] (hcmp : ∀ a b, before a b ↔ cmp a b = .lt) :
    sorted = l.mergeSort (fun a b => cmp a b != .gt) ↔ StablySorted before l sorted := by
  have hmerged := stablySorted_mergeSort hcmp l
  constructor
  · rintro rfl
    exact hmerged
  · intro h
    refine eq_of_ordered (isStrictWeakOrder_of_cmp hcmp).irrefl (h.perm.trans hmerged.perm.symm) h.ordered
      hmerged.ordered fun a => (h.stable a).trans (hmerged.stable a).symm

end Stable

/-! ### One key -/

namespace SortKey

variable {k : SortKey} {e f : Entry} {s t : String}

/-- The texts that an entry has under the attribute of a key, in lower case. -/
def textsOf (k : SortKey) (e : Entry) : List String :=
  (e.values k.name).map fun v => Text.lowercase (Text.ofBytesLossy v)

/-- There is no text just if the attribute is not there or has no values. -/
theorem textsOf_eq_nil_iff (k : SortKey) (e : Entry) :
    k.textsOf e = [] ↔ ∀ a, e.attribute? k.name = some a → a.values = [] := by
  rw [textsOf, List.map_eq_nil_iff, Entry.values]
  cases e.attribute? k.name <;> simp

/-- The order of texts in the direction of a key. -/
def Less (k : SortKey) (s t : String) : Prop := if k.reverse then t < s else s < t

instance (k : SortKey) (s t : String) : Decidable (k.Less s t) :=
  inferInstanceAs (Decidable (if k.reverse then t < s else s < t))

/-- A text stands for an entry if the entry has it and has none that is less, or greater for a key in reverse. -/
def StandsFor (k : SortKey) (s : String) (e : Entry) : Prop :=
  s ∈ k.textsOf e ∧ ∀ t ∈ k.textsOf e, if k.reverse then t ≤ s else s ≤ t

/-- One entry comes before another one by a key. -/
inductive Precedes (k : SortKey) (e f : Entry) : Prop
  | less {s t : String} (hs : k.StandsFor s e) (ht : k.StandsFor t f) (h : k.Less s t)
  | missing (he : k.textsOf e ≠ []) (hf : k.textsOf f = [])

theorem smallest_eq_min? (values : List String) : smallest values = values.min? := by
  have hmin : ∀ a b : String, (if b < a then b else a) = min a b := by
    intro a b
    rw [min_comm, min_def_lt]
  cases values with
  | nil => rfl
  | cons s rest => simp only [smallest, hmin, List.min?_cons']

theorem largest_eq_max? (values : List String) : largest values = values.max? := by
  have hmax : ∀ a b : String, (if a < b then b else a) = max a b := by
    intro a b
    rw [max_def_lt]
  cases values with
  | nil => rfl
  | cons s rest => simp only [largest, hmax, List.max?_cons']

theorem valueOf_eq_some_iff : k.valueOf e = some s ↔ k.StandsFor s e := by
  change (if k.reverse then largest (k.textsOf e) else smallest (k.textsOf e)) = some s ↔ _
  unfold StandsFor
  split
  · rw [largest_eq_max?, List.max?_eq_some_iff]
  · rw [smallest_eq_min?, List.min?_eq_some_iff]

theorem valueOf_eq_none_iff : k.valueOf e = none ↔ k.textsOf e = [] := by
  change (if k.reverse then largest (k.textsOf e) else smallest (k.textsOf e)) = none ↔ _
  split
  · rw [largest_eq_max?, List.max?_eq_none_iff]
  · rw [smallest_eq_min?, List.min?_eq_none_iff]

theorem compareTexts_eq_compare (a b : String) : compareTexts a b = compare a b := cmp_eq_compare a b

instance : Std.TransCmp compareTexts := by
  rw [show compareTexts = compare from funext₂ compareTexts_eq_compare]
  infer_instance

/-- The order of texts in the direction of a key, as a comparison. -/
def compareDirected (k : SortKey) (s t : String) : Ordering :=
  if k.reverse then compareTexts t s else compareTexts s t

theorem compareDirected_eq_lt_iff : k.compareDirected s t = .lt ↔ k.Less s t := by
  unfold compareDirected Less
  split <;> rw [compareTexts_eq_compare, compare_lt_iff_lt]

instance (k : SortKey) : Std.TransCmp k.compareDirected := by
  unfold compareDirected
  cases k.reverse
  · exact inferInstanceAs (Std.TransCmp compareTexts)
  · exact @Std.TransCmp.opposite _ compareTexts _

instance (k : SortKey) : Std.TransCmp k.compareValues where
  eq_swap {a b} := by
    match a, b with
    | some s, some t => exact @Std.OrientedCmp.eq_swap _ k.compareDirected _ s t
    | some _, none | none, some _ | none, none => rfl
  isLE_trans {a b c} hab hbc := by
    match a, b, c with
    | some s, some t, some u => exact @Std.TransCmp.isLE_trans _ k.compareDirected _ s t u hab hbc
    | some _, _, none | none, _, none => rfl
    | none, some _, some _ => cases hab
    | _, none, some _ => cases hbc

/-- The order of two entries by one key. -/
def compareEntries (k : SortKey) (e f : Entry) : Ordering := k.compareValues (k.valueOf e) (k.valueOf f)

instance (k : SortKey) : Std.TransCmp k.compareEntries where
  eq_swap {e f} := by
    unfold compareEntries
    exact Std.OrientedCmp.eq_swap
  isLE_trans {e f g} := by
    unfold compareEntries
    exact Std.TransCmp.isLE_trans

theorem precedes_iff : k.Precedes e f ↔ k.compareEntries e f = .lt := by
  unfold compareEntries
  constructor
  · rintro (⟨hs, ht, h⟩ | ⟨he, hf⟩)
    · rw [valueOf_eq_some_iff.mpr hs, valueOf_eq_some_iff.mpr ht]
      exact compareDirected_eq_lt_iff.mpr h
    · obtain ⟨s, hs⟩ := Option.ne_none_iff_exists'.mp (mt valueOf_eq_none_iff.mp he)
      rw [hs, valueOf_eq_none_iff.mpr hf]
      rfl
  · intro h
    cases he : k.valueOf e with
    | none => cases hf : k.valueOf f <;> simp [he, hf, compareValues] at h
    | some s =>
      cases hf : k.valueOf f with
      | none =>
        refine .missing (fun hnil => ?_) (valueOf_eq_none_iff.mp hf)
        rw [valueOf_eq_none_iff.mpr hnil] at he
        cases he
      | some t =>
        rw [he, hf] at h
        exact .less (valueOf_eq_some_iff.mp he) (valueOf_eq_some_iff.mp hf) (compareDirected_eq_lt_iff.mp h)

instance (k : SortKey) : DecidableRel k.Precedes := fun e f =>
  decidable_of_iff (k.compareEntries e f = .lt) precedes_iff.symm

end SortKey

/-! ### Several keys -/

/-- One entry comes before another one by the first of the keys that tells them apart. -/
def PrecedesBy : List SortKey → Entry → Entry → Prop
  | [], _, _ => False
  | k :: keys, e, f => k.Precedes e f ∨ ¬ k.Precedes f e ∧ PrecedesBy keys e f

/-- The order of two entries by several keys. -/
def compareEntriesBy (keys : List SortKey) (e f : Entry) : Ordering :=
  compareByKeys keys (keys.map fun k => k.valueOf e) (keys.map fun k => k.valueOf f)

theorem compareEntriesBy_cons (k : SortKey) (keys : List SortKey) :
    compareEntriesBy (k :: keys) = compareLex k.compareEntries (compareEntriesBy keys) := by
  funext e f
  simp only [compareEntriesBy, List.map_cons, compareByKeys, compareLex, SortKey.compareEntries]
  cases k.compareValues (k.valueOf e) (k.valueOf f) <;> rfl

instance (keys : List SortKey) : Std.TransCmp (compareEntriesBy keys) := by
  induction keys with
  | nil => exact { eq_swap := rfl, isLE_trans := fun _ _ => rfl }
  | cons k keys ih =>
    rw [compareEntriesBy_cons]
    infer_instance

theorem precedesBy_iff (keys : List SortKey) (e f : Entry) :
    PrecedesBy keys e f ↔ compareEntriesBy keys e f = .lt := by
  induction keys with
  | nil => simp [PrecedesBy, compareEntriesBy, compareByKeys]
  | cons k keys ih =>
    have hswap : k.compareEntries f e = (k.compareEntries e f).swap := Std.OrientedCmp.eq_swap
    rw [PrecedesBy, SortKey.precedes_iff, SortKey.precedes_iff, ih, compareEntriesBy_cons, compareLex, hswap]
    cases k.compareEntries e f <;> simp

instance (keys : List SortKey) : DecidableRel (PrecedesBy keys) := fun e f =>
  decidable_of_iff (compareEntriesBy keys e f = .lt) (precedesBy_iff keys e f).symm

theorem sortByKeys_eq_mergeSort (keys : List SortKey) (entries : List Entry) :
    sortByKeys keys entries = entries.mergeSort fun e f => compareEntriesBy keys e f != .gt := by
  have hkeyed : (entries.mergeSort fun e f => compareEntriesBy keys e f != .gt).map
      (fun e => (keys.map fun k => k.valueOf e, e)) =
      (entries.map fun e => (keys.map fun k => k.valueOf e, e)).mergeSort fun a b => compareByKeys keys a.1 b.1 != .gt :=
    List.map_mergeSort fun _ _ _ _ => rfl
  rw [sortByKeys, ← hkeyed, List.map_map]
  exact List.map_id _

theorem stablySorted_sortByKeys (keys : List SortKey) (entries : List Entry) :
    StablySorted (PrecedesBy keys) entries (sortByKeys keys entries) := by
  rw [sortByKeys_eq_mergeSort]
  exact stablySorted_mergeSort (precedesBy_iff keys) entries

theorem sortByKeys_perm (keys : List SortKey) (entries : List Entry) : (sortByKeys keys entries).Perm entries := by
  rw [sortByKeys_eq_mergeSort]
  exact List.mergeSort_perm entries _

/-- By any keys entries are in a strict weak order, and sorting puts them in it in the one way that keeps the order of
entries that no key tells apart. Those last by a key are those without the attribute or without values under it. -/
theorem sortByKeys_iff (keys : List SortKey) : IsStrictWeakOrder Entry (PrecedesBy keys) ∧
    (∀ entries sorted, sorted = sortByKeys keys entries ↔ StablySorted (PrecedesBy keys) entries sorted) ∧
    ∀ (k : SortKey) (e : Entry), k.textsOf e = [] ↔ ∀ a, e.attribute? k.name = some a → a.values = [] := by
  refine ⟨isStrictWeakOrder_of_cmp (precedesBy_iff keys), fun entries sorted => ?_, SortKey.textsOf_eq_nil_iff⟩
  rw [sortByKeys_eq_mergeSort]
  exact eq_mergeSort_iff (precedesBy_iff keys)

end Ldap
