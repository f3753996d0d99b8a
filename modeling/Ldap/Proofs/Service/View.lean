import Ldap.Proofs.Service.Sorting
import Mathlib.Algebra.Order.Round
import Mathlib.Data.Rat.Floor
import Mathlib.Tactic.FieldSimp

/-! Windows into a sorted list. A client asks for the entries around a target, which is an offset into the list or the
first entry that does not come before a value. The entries before such a value are in front of all others, so that their
number is the place of the target. An offset into a list of another size is taken to the nearest place in the real one.
No number on the way needs more bits than there are. -/

namespace Ldap

variable {k : SortKey} {keys : List SortKey} {e f : Entry} {entries : List Entry} {v : ListView} {text : String}

theorem countOf_eq_max (n : Int32) : (countOf n : Int) = max 0 n.toInt := by
  unfold countOf
  omega

/-! ### Targets that are values -/

namespace SortKey

/-- The entry has a text, and the one that stands for it comes before the given one. -/
def FallsShort (k : SortKey) (text : String) (e : Entry) : Prop := ∃ s, k.StandsFor s e ∧ k.Less s text

theorem isAtOrBehind_iff : isAtOrBehind k text e ↔ ¬ k.FallsShort text e := by
  simp only [FallsShort, ← valueOf_eq_some_iff, isAtOrBehind]
  cases k.valueOf e with
  | none => simp
  | some s =>
    simp only [Option.some.injEq, exists_eq_left', Less]
    split <;> rw [decide_eq_true_iff, not_lt]

instance (k : SortKey) (text : String) : DecidablePred (k.FallsShort text) := fun e =>
  decidable_of_iff (¬ isAtOrBehind k text e) (by rw [isAtOrBehind_iff, not_not])

/-- What an entry comes before that falls short of a text falls short of it too. -/
theorem FallsShort.of_not_precedes (hf : k.FallsShort text f) (h : ¬ k.Precedes f e) : k.FallsShort text e := by
  obtain ⟨t, ht, hless⟩ := hf
  cases he : k.valueOf e with
  | none => exact absurd (.missing (List.ne_nil_of_mem ht.1) (valueOf_eq_none_iff.mp he)) h
  | some s =>
    have hs : k.StandsFor s e := valueOf_eq_some_iff.mp he
    refine ⟨s, hs, ?_⟩
    have hle : ¬ k.Less t s := fun hlt => h (.less ht hs hlt)
    unfold Less at *
    split at hless
    · rw [if_pos ‹_›] at hle ⊢
      exact lt_of_lt_of_le hless (not_lt.mp hle)
    · rw [if_neg ‹_›] at hle ⊢
      exact lt_of_le_of_lt (not_lt.mp hle) hless

end SortKey

/-- Where no element that has a property stands behind one without it, those without it come first. -/
theorem findIdx_eq_countP {α : Type} {p : α → Bool} {l : List α} (h : l.Pairwise fun a b => p a → p b) :
    l.findIdx p = l.countP fun a => !p a := by
  induction l with
  | nil => rfl
  | cons a l ih =>
    rw [List.pairwise_cons] at h
    rw [List.findIdx_cons, List.countP_cons]
    cases ha : p a with
    | true =>
      have hnone : l.countP (fun a => !p a) = 0 := List.countP_eq_zero.mpr fun b hb => by simp [h.1 b hb ha]
      simp [hnone]
    | false => simp [ih h.2]

theorem findIdx_isAtOrBehind (k : SortKey) (keys : List SortKey) (entries : List Entry) (text : String) :
    (sortByKeys (k :: keys) entries).findIdx (isAtOrBehind k text) =
      (sortByKeys (k :: keys) entries).countP (k.FallsShort text ·) := by
  have hsorted : (sortByKeys (k :: keys) entries).Pairwise fun e f => isAtOrBehind k text e → isAtOrBehind k text f := by
    have hordered := (stablySorted_sortByKeys (k :: keys) entries).ordered
    refine hordered.imp fun {e f} hfe he => SortKey.isAtOrBehind_iff.mpr fun hf => ?_
    exact SortKey.isAtOrBehind_iff.mp he (hf.of_not_precedes fun h => hfe (.inl h))
  rw [findIdx_eq_countP hsorted]
  refine List.countP_congr fun e _ => ?_
  rw [Bool.not_eq_true', ← Bool.not_eq_true, SortKey.isAtOrBehind_iff, not_not, decide_eq_true_iff]

/-! ### Targets that are offsets -/

/-- The place in a list that an offset stands for, counted from one. An offset into a list of another size is scaled. -/
def placeOf (offset contentCount : Int32) (total : Nat) : Int :=
  if contentCount.toInt = 0 ∨ contentCount.toInt = total then offset.toInt
  else round ((offset.toInt * total : ℚ) / contentCount.toInt)

theorem div_eq_round (n : Nat) {c : Nat} (hc : 0 < c) : ((n + c / 2) / c : Nat) = round ((n : ℚ) / c) := by
  have hc' : (c : ℚ) ≠ 0 := by exact_mod_cast hc.ne'
  have hsum : (n : ℚ) / c + 1 / 2 = ((2 * n + c : Int) : ℚ) / ((2 * c : Nat) : ℚ) := by
    push_cast
    field_simp
  have hhalf : n + c / 2 = (2 * n + c) / 2 := by omega
  rw [round_eq, hsum, Rat.floor_intCast_div_natCast, hhalf, Nat.div_div_eq_div_mul]
  push_cast
  rfl

theorem scaledIndex_eq {offset contentCount : Int32} {total : Nat} (ho : 1 ≤ offset.toInt)
    (hc : 0 ≤ contentCount.toInt) :
    (scaledIndex (countOf offset) (countOf contentCount) total : Int) + 1 =
      max 1 (min (placeOf offset contentCount total) total) := by
  have hoffset : (countOf offset : Int) = offset.toInt := by rw [countOf_eq_max]; omega
  have hcount : (countOf contentCount : Int) = contentCount.toInt := by rw [countOf_eq_max]; omega
  unfold scaledIndex placeOf
  rw [← hoffset, ← hcount]
  by_cases hsame : countOf contentCount = 0 ∨ countOf contentCount = total
  · have hsame' : (countOf contentCount : Int) = 0 ∨ (countOf contentCount : Int) = total := by omega
    rw [if_pos hsame, if_pos hsame']
    dsimp only
    omega
  · have hsame' : ¬ ((countOf contentCount : Int) = 0 ∨ (countOf contentCount : Int) = total) := by omega
    have hround := div_eq_round (countOf offset * total) (Nat.pos_of_ne_zero fun h => hsame (.inl h))
    rw [Nat.cast_mul] at hround
    rw [if_neg hsame, if_neg hsame', Int.cast_natCast, Int.cast_natCast, ← hround]
    generalize (countOf offset * total + countOf contentCount / 2) / countOf contentCount = nearest
    dsimp only
    omega

/-! ### Windows -/

/-- Where the target of a list view is in a sorted list, counted from zero. A value comes behind the entries that fall
short of it, and a place that is not in the list becomes the closest one. -/
inductive Targets (k : SortKey) (sorted : List Entry) : ViewTarget → Nat → Prop
  | value (value : List UInt8) : Targets k sorted (.greaterOrEqual value)
      (sorted.countP (k.FallsShort (Text.lowercase (Text.ofBytesLossy value)) ·))
  | place {offset contentCount : Int32} {i : Nat} (ho : 1 ≤ offset.toInt) (hc : 0 ≤ contentCount.toInt)
      (hi : (i + 1 : Int) = max 1 (min (placeOf offset contentCount sorted.length) sorted.length)) :
    Targets k sorted (.byOffset offset contentCount) i

/-- The position of the `i`-th entry of some number of them, and the window around it. A negative number of entries
before or after it counts as none. -/
structure Around (v : ListView) (total i position : Nat) (w : Window) : Prop where
  position : position = if total = 0 then 0 else i + 1
  start : (w.start : Int) = max 0 (i - max 0 v.before.toInt)
  stop : (w.stop : Int) = min (total : Int) (i + max 0 v.after.toInt + 1)

theorem targetIndex?_eq_none_iff {target : ViewTarget} : targetIndex? (k :: keys) entries target = none ↔
    ∃ offset contentCount, target = .byOffset offset contentCount ∧ (offset.toInt < 1 ∨ contentCount.toInt < 0) := by
  cases target with
  | greaterOrEqual value => simp [targetIndex?]
  | byOffset offset contentCount =>
    simp [targetIndex?, Int32.lt_iff_toInt_lt, or_iff_not_imp_left]

theorem targetIndex?_le {target : ViewTarget} {i : Nat} (h : targetIndex? keys entries target = some i) :
    i ≤ entries.length := by
  cases target with
  | greaterOrEqual value =>
    obtain ⟨k, -, rfl⟩ := Option.map_eq_some_iff.mp h
    exact List.findIdx_le_length
  | byOffset offset contentCount =>
    rw [targetIndex?, Option.ite_none_left_eq_some] at h
    obtain rfl := Option.some.inj h.2
    unfold scaledIndex
    dsimp only
    omega

theorem targets_of_targetIndex? {target : ViewTarget} {i : Nat}
    (h : targetIndex? (k :: keys) (sortByKeys (k :: keys) entries) target = some i) :
    Targets k (sortByKeys (k :: keys) entries) target i := by
  cases target with
  | greaterOrEqual value =>
    rw [targetIndex?, List.head?_cons, Option.map_some, findIdx_isAtOrBehind] at h
    obtain rfl := Option.some.inj h
    exact .value value
  | byOffset offset contentCount =>
    rw [targetIndex?, Option.ite_none_left_eq_some, Int32.lt_iff_toInt_lt, Int32.lt_iff_toInt_lt, not_or, not_lt,
      not_lt] at h
    obtain ⟨⟨ho, hc⟩, h⟩ := h
    obtain rfl := Option.some.inj h
    exact .place ho hc (scaledIndex_eq ho hc)

theorem around_of_viewOf {position : Nat} {w : Window} (h : viewOf keys entries v = some (position, w)) :
    ∃ i, targetIndex? keys entries v.target = some i ∧ Around v entries.length i position w := by
  obtain ⟨i, hi, h⟩ := Option.map_eq_some_iff.mp h
  have hle := targetIndex?_le hi
  have hbefore := countOf_eq_max v.before
  have hafter := countOf_eq_max v.after
  cases h
  refine ⟨i, hi, rfl, ?_, ?_⟩
  · dsimp only
    omega
  · dsimp only
    omega

/-! ### Numbers of bounded size -/

/-- A number, if it has no more than some number of bits. -/
def fitting? (bits n : Nat) : Option Nat := if n < 2 ^ bits then some n else none

/-- The sum of two numbers, or the largest number of 64 bits if it has more. -/
def saturatingAdd (a b : Nat) : Nat := min (a + b) Text.maxNat64

/-- The index of an offset, by way of numbers of 128 bits and positions of 64. -/
def boundedIndex? (offset contentCount total : Nat) : Option Nat := do
  let position ←
    if contentCount = 0 ∨ contentCount = total then pure offset
    else do
      let product ← fitting? 128 (offset * total)
      let sum ← fitting? 128 (product + contentCount / 2)
      pure (min (sum / contentCount) Text.maxNat64)
  return max 1 (min position (max 1 total)) - 1

def boundedTarget? (keys : List SortKey) (entries : List Entry) : ViewTarget → Option (Option Nat)
  | .byOffset offset contentCount =>
    if offset < 1 ∨ contentCount < 0 then some none
    else some <$> boundedIndex? (countOf offset) (countOf contentCount) entries.length
  | .greaterOrEqual value => some (targetIndex? keys entries (.greaterOrEqual value))

/-- The window of a list view and the position of its target in numbers of 64 and 128 bits. There is no answer if a
number on the way does not fit, except for the end of the window, where sums may stop at the largest number. -/
def boundedView? (keys : List SortKey) (entries : List Entry) (v : ListView) : Option (Option (Nat × Window)) := do
  match ← boundedTarget? keys entries v.target with
  | none => return none
  | some index =>
    let total := entries.length
    let stop := min (saturatingAdd (saturatingAdd index (countOf v.after)) 1) total
    let position ← if total = 0 then pure 0 else fitting? 64 (index + 1)
    return some (position, ⟨min (index - countOf v.before) stop, stop⟩)

theorem countOf_lt (n : Int32) : countOf n < 2 ^ 31 := by
  have := n.toInt_lt
  unfold countOf
  omega

theorem fitting?_of_lt {bits n : Nat} (h : n < 2 ^ bits) : fitting? bits n = some n := if_pos h

theorem boundedIndex?_eq {offset contentCount total : Nat} (ho : offset < 2 ^ 31) (hc : contentCount < 2 ^ 31)
    (ht : total < 2 ^ 63) : boundedIndex? offset contentCount total = some (scaledIndex offset contentCount total) := by
  have hproduct : offset * total < 2 ^ 31 * 2 ^ 63 := Nat.mul_lt_mul'' ho ht
  unfold boundedIndex? scaledIndex
  rw [fitting?_of_lt (by omega)]
  split
  · rfl
  · rw [Option.bind_eq_bind, Option.bind_some, fitting?_of_lt (by omega)]
    simp only [Option.pure_def, Option.bind_some, Option.some.injEq]
    generalize (offset * total + contentCount / 2) / contentCount = nearest
    unfold Text.maxNat64
    omega

theorem boundedTarget?_eq (keys : List SortKey) (target : ViewTarget) (h : entries.length < 2 ^ 63) :
    boundedTarget? keys entries target = some (targetIndex? keys entries target) := by
  cases target with
  | greaterOrEqual value => rfl
  | byOffset offset contentCount =>
    rw [boundedTarget?, boundedIndex?_eq (countOf_lt offset) (countOf_lt contentCount) h, targetIndex?]
    split <;> rfl

theorem boundedView?_eq (keys : List SortKey) (v : ListView) (h : entries.length < 2 ^ 63) :
    boundedView? keys entries v = some (viewOf keys entries v) := by
  unfold boundedView? viewOf
  rw [boundedTarget?_eq keys v.target h, Option.bind_eq_bind, Option.bind_some]
  cases hi : targetIndex? keys entries v.target with
  | none => rfl
  | some i =>
    have hle := targetIndex?_le hi
    have hstop : min (saturatingAdd (saturatingAdd i (countOf v.after)) 1) entries.length =
        min (i + countOf v.after + 1) entries.length := by
      unfold saturatingAdd Text.maxNat64
      omega
    dsimp only
    rw [hstop, fitting?_of_lt (by omega)]
    split <;> simp [*]

/-- A list view of a sorted list has no window just if it asks for an offset below one or gives a negative size of the
list. Otherwise it has the window around the target, which is within the list, and no number in the course of it is too
large for its 64 or 128 bits. -/
theorem viewOf_sorted (k : SortKey) (keys : List SortKey) (entries : List Entry) (v : ListView) :
    let sorted := sortByKeys (k :: keys) entries
    let total := sorted.length
    (viewOf (k :: keys) sorted v = none ↔ ∃ offset contentCount,
      v.target = .byOffset offset contentCount ∧ (offset.toInt < 1 ∨ contentCount.toInt < 0)) ∧
    (∀ position w, viewOf (k :: keys) sorted v = some (position, w) →
      (∃ i ≤ total, Targets k sorted v.target i ∧ Around v total i position w) ∧
      w.start ≤ w.stop ∧ w.stop ≤ total) ∧
    (total < 2 ^ 63 → boundedView? (k :: keys) sorted v = some (viewOf (k :: keys) sorted v)) := by
  intro sorted total
  refine ⟨?_, fun position w h => ?_, boundedView?_eq _ v⟩
  · rw [viewOf, Option.map_eq_none_iff, targetIndex?_eq_none_iff]
  · obtain ⟨i, hi, haround⟩ := around_of_viewOf h
    have hle : i ≤ total := targetIndex?_le hi
    have hstart := haround.start
    have hstop := haround.stop
    exact ⟨⟨i, hle, targets_of_targetIndex? hi, haround⟩, by omega, by omega⟩

/-- One of three people falls short of a name in reverse order. The last one has no name. -/
theorem viewOf_sorted_people :
    let named (uid name : String) : Entry := { dn := uid, attributes := [.ofTexts "sn" [name]] }
    let people : List Entry := [named "uid=c" "c", named "uid=a" "a", { dn := "uid=x" }]
    let k : SortKey := { name := "sn", reverse := true }
    let v : ListView := { before := 1, after := 5, target := .greaterOrEqual [0x42] }
    sortByKeys [k] people = people ∧ viewOf [k] people v = some (2, ⟨0, 3⟩) ∧
      (∃ i ≤ 3, Targets k people v.target i ∧ Around v 3 i 2 ⟨0, 3⟩) ∧
      boundedView? [k] people v = some (some (2, ⟨0, 3⟩)) := by
  intro named people k v
  have hsorted : sortByKeys [k] people = people := by
    rw [sortByKeys_eq_mergeSort]
    exact List.mergeSort_of_pairwise (by decide +kernel)
  have hview : viewOf [k] people v = some (2, ⟨0, 3⟩) := by decide +kernel
  obtain ⟨-, hsome, hbounded⟩ := viewOf_sorted k [] people v
  rw [hsorted, hview] at hsome hbounded
  exact ⟨hsorted, hview, (hsome 2 _ rfl).1, hbounded (by decide)⟩

end Ldap
