import Ldap.Entry.Match
import Ldap.Proofs.Text.Numeral
import Mathlib.Data.Set.Defs

/-! The order of values. Two numbers are in the order of numbers, and any other two values in that of texts. Each order
is total, but the two need not agree: a text can be between two numbers that stand the other way round as texts. Just
where there are no such three values the order is one, and a filter that holds for a bound holds for any wider one. -/

namespace Ldap

open Text (Spells lowerBytes compareBytes numberOf?)

variable {x y z t : List UInt8} {m n : Int} {S : Set (List UInt8)}

/-! ### Comparisons -/

theorem swap_of_not_and {p q : Prop} [Decidable p] [Decidable q] (h : ¬ (p ∧ q)) :
    (if q then .lt else if p then .gt else .eq) = (if p then .lt else if q then .gt else .eq : Ordering).swap := by
  by_cases hp : p
  · simp [hp, not_and.mp h hp]
  · by_cases hq : q <;> simp [hp, hq]

theorem ne_gt_iff_of_not_and {p q : Prop} [Decidable p] [Decidable q] (h : ¬ (p ∧ q)) :
    (if p then .lt else if q then .gt else .eq : Ordering) ≠ .gt ↔ ¬ q := by
  by_cases hp : p
  · simp [hp, not_and.mp h hp]
  · by_cases hq : q <;> simp [hp, hq]

/-! ### Numbers and texts -/

namespace Text

theorem compareBytes_eq (a b : List UInt8) :
    compareBytes a b = if a < b then .lt else if b < a then .gt else .eq := by
  induction a generalizing b with
  | nil => cases b <;> simp [compareBytes]
  | cons c a ih =>
    cases b with
    | nil => simp [compareBytes]
    | cons d b =>
      simp only [compareBytes, ih, List.cons_lt_cons_iff]
      by_cases hlt : c < d
      · simp [hlt]
      · by_cases hgt : d < c
        · have hne : c ≠ d := fun h => UInt8.lt_irrefl c (h ▸ hgt)
          simp [hlt, hgt, hne]
        · simp [UInt8.le_antisymm (UInt8.not_lt.mp hgt) (UInt8.not_lt.mp hlt)]

theorem compareBytes_swap (a b : List UInt8) : compareBytes b a = (compareBytes a b).swap := by
  rw [compareBytes_eq, compareBytes_eq]
  exact swap_of_not_and fun h => List.lt_asymm h.1 h.2

theorem compareBytes_ne_gt_iff {a b : List UInt8} : compareBytes a b ≠ .gt ↔ a ≤ b := by
  rw [compareBytes_eq, ← List.not_lt]
  exact ne_gt_iff_of_not_and fun h => List.lt_asymm h.1 h.2

theorem Spells.unique (hm : Spells x m) (hn : Spells x n) : m = n := by
  have h := hm.numberOf?.symm.trans hn.numberOf?
  rw [← toInt_ofInt_of_fits hm.1, ← toInt_ofInt_of_fits hn.1, Option.some.inj h]

end Text

/-- The value is a number. -/
def IsNumber (x : List UInt8) : Prop := ∃ z, Spells x z

theorem isNumber_iff : IsNumber x ↔ numberOf? x ≠ none := by
  rw [Option.ne_none_iff_exists']
  constructor
  · rintro ⟨z, h⟩
    exact ⟨_, h.numberOf?⟩
  · rintro ⟨n, h⟩
    exact ⟨_, Text.numberOf?_eq_some_iff.mp h⟩

theorem isNumber_congr (h : lowerBytes x = lowerBytes y) : IsNumber x ↔ IsNumber y := by
  rw [isNumber_iff, isNumber_iff, Text.numberOf?_congr h]

/-! ### Two values -/

theorem compareValues_of_spells (hx : Spells x m) (hy : Spells y n) :
    compareValues x y = if m < n then .lt else if n < m then .gt else .eq := by
  rw [compareValues, hx.numberOf?, hy.numberOf?]
  simp only [Int64.lt_iff_toInt_lt, Text.toInt_ofInt_of_fits hx.1, Text.toInt_ofInt_of_fits hy.1]

theorem compareValues_of_not (h : ¬ (IsNumber x ∧ IsNumber y)) :
    compareValues x y = compareBytes (lowerBytes x) (lowerBytes y) := by
  rw [isNumber_iff, isNumber_iff] at h
  unfold compareValues
  split
  · rename_i hx hy
    exact absurd ⟨by simp [hx], by simp [hy]⟩ h
  · rfl

theorem compareValues_swap (x y : List UInt8) : compareValues y x = (compareValues x y).swap := by
  by_cases h : IsNumber x ∧ IsNumber y
  · obtain ⟨⟨m, hx⟩, n, hy⟩ := h
    rw [compareValues_of_spells hx hy, compareValues_of_spells hy hx]
    exact swap_of_not_and fun h => h.1.not_gt h.2
  · rw [compareValues_of_not h, compareValues_of_not (mt And.symm h), Text.compareBytes_swap]

/-- The first value is no greater than the second. -/
inductive AtMost (x y : List UInt8) : Prop
  | numbers {m n : Int} (hx : Spells x m) (hy : Spells y n) (h : m ≤ n)
  | texts (h : ¬ (IsNumber x ∧ IsNumber y)) (hle : lowerBytes x ≤ lowerBytes y)

theorem compareValues_ne_gt_iff_of_spells (hx : Spells x m) (hy : Spells y n) : compareValues x y ≠ .gt ↔ m ≤ n := by
  rw [compareValues_of_spells hx hy, ← not_lt]
  exact ne_gt_iff_of_not_and fun h => h.1.not_gt h.2

theorem compareValues_ne_gt_iff : compareValues x y ≠ .gt ↔ AtMost x y := by
  constructor
  · intro hle
    by_cases h : IsNumber x ∧ IsNumber y
    · obtain ⟨⟨m, hx⟩, n, hy⟩ := h
      exact .numbers hx hy ((compareValues_ne_gt_iff_of_spells hx hy).mp hle)
    · rw [compareValues_of_not h] at hle
      exact .texts h (Text.compareBytes_ne_gt_iff.mp hle)
  · rintro (⟨hx, hy, hle⟩ | ⟨h, hle⟩)
    · exact (compareValues_ne_gt_iff_of_spells hx hy).mpr hle
    · rw [compareValues_of_not h]
      exact Text.compareBytes_ne_gt_iff.mpr hle

theorem AtMost.le (h : AtMost x y) (hx : Spells x m) (hy : Spells y n) : m ≤ n := by
  rcases h with ⟨hx', hy', hle⟩ | ⟨h, -⟩
  · rwa [hx.unique hx', hy.unique hy']
  · exact absurd ⟨⟨m, hx⟩, n, hy⟩ h

theorem atMost_or (x y : List UInt8) : AtMost x y ∨ AtMost y x := by
  rw [← compareValues_ne_gt_iff, ← compareValues_ne_gt_iff, compareValues_swap x y]
  cases compareValues x y <;> simp

theorem AtMost.lowerBytes_le (h : AtMost x y) (hn : ¬ (IsNumber x ∧ IsNumber y)) : lowerBytes x ≤ lowerBytes y := by
  rcases h with ⟨hx, hy, -⟩ | ⟨-, hle⟩
  · exact absurd ⟨⟨_, hx⟩, _, hy⟩ hn
  · exact hle

/-- A number and a value that is none are never tied, since no text is a number in one case and not in another. -/
theorem AtMost.lowerBytes_lt (h : AtMost x y) (hn : ¬ (IsNumber x ↔ IsNumber y)) : lowerBytes x < lowerBytes y :=
  Std.lt_of_le_of_ne (h.lowerBytes_le fun hxy => hn (iff_of_true hxy.1 hxy.2)) (mt isNumber_congr hn)

/-! ### Three values -/

/-- Two numbers and a text between them, where the numbers stand the other way round as texts. -/
structure Torn (x y t : List UInt8) : Prop where
  numbers : ∃ m n, Spells x m ∧ Spells y n ∧ m ≤ n
  text : ¬ IsNumber t
  above : lowerBytes y < lowerBytes t
  below : lowerBytes t < lowerBytes x

theorem Torn.not_atMost (h : Torn x y t) : AtMost x y ∧ AtMost y t ∧ ¬ AtMost x t := by
  obtain ⟨⟨m, n, hx, hy, hle⟩, ht, habove, hbelow⟩ := h
  refine ⟨.numbers hx hy hle, .texts (fun h => ht h.2) (List.le_of_lt habove), ?_⟩
  rintro (⟨-, h, -⟩ | ⟨-, hle⟩)
  · exact ht ⟨_, h⟩
  · exact List.not_le.mpr hbelow hle

theorem torn_of_isNumber (hx : IsNumber x) (hy : IsNumber y) (ht : ¬ IsNumber t) (hxy : AtMost x y) (hyt : AtMost y t)
    (htx : AtMost t x) : Torn x y t := by
  obtain ⟨⟨m, hx⟩, n, hy⟩ := And.intro hx hy
  exact ⟨⟨m, n, hx, hy, hxy.le hx hy⟩, ht, hyt.lowerBytes_lt fun h => ht (h.mp ⟨n, hy⟩),
    htx.lowerBytes_lt fun h => ht (h.mpr ⟨m, hx⟩)⟩

/-- Three values that go round in a circle are torn, from one of them on. -/
theorem torn_of_not_atMost (hxy : AtMost x y) (hyz : AtMost y z) (hxz : ¬ AtMost x z) :
    Torn x y z ∨ Torn y z x ∨ Torn z x y := by
  have hzx : AtMost z x := (atMost_or x z).resolve_left hxz
  -- only one of the two orders has a say unless just two of the values are numbers, and then the third is the text
  by_cases hnxy : IsNumber x ∧ IsNumber y
  · obtain ⟨⟨k, hx⟩, m, hy⟩ := hnxy
    refine .inl (torn_of_isNumber ⟨k, hx⟩ ⟨m, hy⟩ ?_ hxy hyz hzx)
    rintro ⟨n, hz⟩
    exact hxz (.numbers hx hz ((hxy.le hx hy).trans (hyz.le hy hz)))
  · by_cases hnyz : IsNumber y ∧ IsNumber z
    · exact .inr (.inl (torn_of_isNumber hnyz.1 hnyz.2 (fun hx => hnxy ⟨hx, hnyz.1⟩) hyz hzx hxy))
    · by_cases hnzx : IsNumber z ∧ IsNumber x
      · exact .inr (.inr (torn_of_isNumber hnzx.1 hnzx.2 (fun hy => hnyz ⟨hy, hnzx.1⟩) hzx hxy hyz))
      · exact absurd (.texts (mt And.symm hnzx) (List.le_trans (hxy.lowerBytes_le hnxy) (hyz.lowerBytes_le hnyz))) hxz

/-! ### Filters for a range -/

/-- No three values of a set are torn. -/
def Coherent (S : Set (List UInt8)) : Prop := ∀ x ∈ S, ∀ y ∈ S, ∀ t ∈ S, ¬ Torn x y t

/-- Numbers alone are in one order, whatever text each of them is. -/
theorem coherent_of_isNumber (h : ∀ x ∈ S, IsNumber x) : Coherent S := fun _ _ _ _ t ht htorn => htorn.text (h t ht)

theorem coherent_iff : Coherent S ↔ ∀ x ∈ S, ∀ y ∈ S, ∀ z ∈ S, AtMost x y → AtMost y z → AtMost x z := by
  constructor
  · intro h x hx y hy z hz hxy hyz
    by_contra hxz
    rcases torn_of_not_atMost hxy hyz hxz with ht | ht | ht
    · exact h x hx y hy z hz ht
    · exact h y hy z hz x hx ht
    · exact h z hz x hx y hy ht
  · intro h x hx y hy t ht htorn
    obtain ⟨hxy, hyt, hxt⟩ := htorn.not_atMost
    exact hxt (h x hx y hy t ht hxy hyt)

theorem transCmp_iff : (Std.TransCmp fun x y : S => compareValues x y) ↔ Coherent S := by
  rw [coherent_iff]
  simp only [← compareValues_ne_gt_iff, ← Ordering.isLE_iff_ne_gt]
  constructor
  · intro h x hx y hy z hz hxy hyz
    exact h.isLE_trans (a := ⟨x, hx⟩) (b := ⟨y, hy⟩) (c := ⟨z, hz⟩) hxy hyz
  · intro h
    exact { eq_swap := compareValues_swap _ _, isLE_trans := h _ (Subtype.prop _) _ (Subtype.prop _) _ (Subtype.prop _) }

namespace Entry

variable {e : Entry} {name : String}

theorem isMatch_greaterOrEqual_iff :
    e.isMatch (.compare .greaterOrEqual name x) ↔ ∃ v ∈ e.values name, AtMost x v := by
  simp only [isMatch, satisfies, List.any_eq_true, ← compareValues_ne_gt_iff, bne_iff_ne]
  refine exists_congr fun v => and_congr_right fun _ => ?_
  rw [compareValues_swap x v]
  cases compareValues x v <;> simp

theorem isMatch_lessOrEqual_iff :
    e.isMatch (.compare .lessOrEqual name x) ↔ ∃ v ∈ e.values name, AtMost v x := by
  simp only [isMatch, satisfies, List.any_eq_true, ← compareValues_ne_gt_iff, bne_iff_ne]

theorem values_single (dn name : String) (vs : List (List UInt8)) :
    ({ dn, attributes := [⟨name, vs⟩] } : Entry).values name = vs := by
  simp [values, attribute?, Text.sameText]

end Entry

/-- Comparing values the other way round reverses the outcome. On a set of values the comparison is a total preorder
just if no three of them are torn. Just then whatever entry with values in the set matches a filter for at least a value
of the set matches that for at least any lesser one, and just then the same holds for at most and greater ones. -/
theorem compareValues_ordered_iff (S : Set (List UInt8)) :
    (∀ x y, compareValues y x = (compareValues x y).swap) ∧
    ((Std.TransCmp fun x y : S => compareValues x y) ↔ Coherent S) ∧
    ((∀ (e : Entry) (name : String), (∀ v ∈ e.values name, v ∈ S) →
      ∀ x ∈ S, ∀ y ∈ S, compareValues x y ≠ .gt →
        e.isMatch (.compare .greaterOrEqual name y) → e.isMatch (.compare .greaterOrEqual name x)) ↔ Coherent S) ∧
    ((∀ (e : Entry) (name : String), (∀ v ∈ e.values name, v ∈ S) →
      ∀ x ∈ S, ∀ y ∈ S, compareValues x y ≠ .gt →
        e.isMatch (.compare .lessOrEqual name x) → e.isMatch (.compare .lessOrEqual name y)) ↔ Coherent S) := by
  refine ⟨compareValues_swap, transCmp_iff, ?_, ?_⟩
  · simp only [compareValues_ne_gt_iff, Entry.isMatch_greaterOrEqual_iff, coherent_iff]
    constructor
    · intro h x hx y hy z hz hxy hyz
      have hmatch := h { dn := "", attributes := [⟨"", [z]⟩] } "" (by simpa [Entry.values_single] using hz) x hx y hy hxy
      simpa [Entry.values_single, hyz] using hmatch
    · rintro h e name hS x hx y hy hxy ⟨v, hv, hyv⟩
      exact ⟨v, hv, h x hx y hy v (hS v hv) hxy hyv⟩
  · simp only [compareValues_ne_gt_iff, Entry.isMatch_lessOrEqual_iff, coherent_iff]
    constructor
    · intro h x hx y hy z hz hxy hyz
      have hmatch := h { dn := "", attributes := [⟨"", [x]⟩] } "" (by simpa [Entry.values_single] using hx) y hy z hz hyz
      simpa [Entry.values_single, hxy] using hmatch
    · rintro h e name hS x hx y hy hxy ⟨v, hv, hvx⟩
      exact ⟨v, hv, h v (hS v hv) x hx y hy hvx hxy⟩

/-- Eleven is at least ten, and so it is at least nine, among numbers. -/
theorem compareValues_ordered_numbers :
    let nine : List UInt8 := [0x39]
    let ten : List UInt8 := [0x31, 0x30]
    let e : Entry := { dn := "cn=a", attributes := [⟨"n", [[0x31, 0x31]]⟩] }
    (Std.TransCmp fun x y : {x | IsNumber x} => compareValues x y) ∧ compareValues nine ten ≠ .gt ∧
      e.isMatch (.compare .greaterOrEqual "n" ten) ∧ e.isMatch (.compare .greaterOrEqual "n" nine) := by
  intro nine ten e
  have hcoherent : Coherent {x | IsNumber x} := coherent_of_isNumber fun _ h => h
  have hnumber : ∀ x ∈ [nine, ten, [0x31, 0x31]], IsNumber x := by
    simp only [isNumber_iff]
    decide +kernel
  have hle : compareValues nine ten ≠ .gt := by decide +kernel
  have hten : e.isMatch (.compare .greaterOrEqual "n" ten) := by decide +kernel
  obtain ⟨-, htrans, hat_least, -⟩ := compareValues_ordered_iff {x | IsNumber x}
  refine ⟨htrans.mpr hcoherent, hle, hten, hat_least.mpr hcoherent e "n" ?_ nine ?_ ten ?_ hle hten⟩
  · rw [Entry.values_single]
    exact fun v hv => hnumber v (by simp_all)
  · exact hnumber nine (by simp)
  · exact hnumber ten (by simp)

/-- Nine is no greater than ten, and ten no greater than a text that starts with a one, but nine is greater than that.
The entry with this text has a value of at least ten and none of at least nine. -/
theorem not_compareValues_trans :
    let nine : List UInt8 := [0x39]
    let ten : List UInt8 := [0x31, 0x30]
    let text : List UInt8 := [0x31, 0x61]
    let e : Entry := { dn := "cn=a", attributes := [⟨"n", [text]⟩] }
    compareValues nine ten ≠ .gt ∧ compareValues ten text ≠ .gt ∧ compareValues nine text = .gt ∧
      e.isMatch (.compare .greaterOrEqual "n" ten) ∧ ¬ e.isMatch (.compare .greaterOrEqual "n" nine) := by
  decide +kernel

end Ldap
