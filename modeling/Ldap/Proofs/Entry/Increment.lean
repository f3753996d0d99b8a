import Ldap.Proofs.Entry.Edit
import Ldap.Proofs.Text.Numeral
import Mathlib.Data.List.Forall2

/-! Increments. They are given as one numeral, and every value of the attribute has to be one too. Each value becomes
the decimal form of the sum of both numbers, as far as 64 bits go: the sum itself if it is a number of 64 bits, and
otherwise one that differs from it by a multiple of 2 to the 64th. All else stays as it is. -/

namespace Ldap

open Text (Spells Fits decimal wrap numberOf? sameText)

namespace Entry

variable {e : Entry} {name : String} {a : Attribute} {front back : List Attribute}

theorem attribute?_eq_some_iff : e.attribute? name = some a ↔ ∃ front back, e.attributes = front ++ a :: back ∧
    (∀ x ∈ front, ¬ sameText x.name name) ∧ sameText a.name name := by
  rw [attribute?, List.find?_eq_some_iff_append]
  simp only [Bool.not_eq_eq_eq_not, Bool.not_true, Bool.not_eq_true]
  constructor
  · rintro ⟨ha, front, back, he, hf⟩
    exact ⟨front, back, he, hf, ha⟩
  · rintro ⟨front, back, he, hf, ha⟩
    exact ⟨ha, front, back, he, hf⟩

/-- The values are changed where the attribute stands. -/
theorem setValues_of_append (h : e.attributes = front ++ a :: back) (hf : ∀ x ∈ front, ¬ sameText x.name name)
    (ha : sameText a.name name) (f : List (List UInt8) → List (List UInt8)) :
    e.setValues name f = { e with attributes := front ++ { a with values := f a.values } :: back } := by
  have hupdate : updateValues name f (front ++ a :: back) = front ++ { a with values := f a.values } :: back := by
    clear h
    induction front with
    | nil => exact if_pos ha
    | cons x front ih =>
      rw [List.cons_append, updateValues, if_neg (hf x List.mem_cons_self),
        ih fun y hy => hf y (List.mem_cons_of_mem _ hy)]
      rfl
  rw [setValues, h, hupdate]

end Entry

namespace Edit

variable {e after : Entry} {name : String} {values raised : List (List UInt8)} {delta : Int64}

/-- A value, and what becomes of it when an amount is added: the sum, if that is a number of 64 bits. -/
def Raised (amount : Int) (old new : List UInt8) : Prop :=
  ∃ n, Spells old n ∧ new = decimal (wrap (n + amount)) ∧ (new = decimal (n + amount) ↔ Fits (n + amount))

theorem raised_iff {old new : List UInt8} : Raised delta.toInt old new ↔
    ∃ n, numberOf? old = some n ∧ new = decimal (n + delta).toInt := by
  constructor
  · rintro ⟨n, hn, rfl, -⟩
    refine ⟨Int64.ofInt n, hn.numberOf?, ?_⟩
    rw [Text.toInt_add, Text.toInt_ofInt_of_fits hn.1]
  · rintro ⟨n, hn, rfl⟩
    refine ⟨n.toInt, Text.numberOf?_eq_some_iff.mp hn, ?_, ?_⟩
    · rw [Text.toInt_add]
    · rw [Text.toInt_add, Text.decimal_inj, Text.wrap_eq_self_iff]

theorem incrementEach_eq_iff : incrementEach delta values = (raised, true) ↔
    List.Forall₂ (Raised delta.toInt) values raised := by
  induction values generalizing raised with
  | nil => simp [incrementEach, eq_comm]
  | cons value rest ih =>
    simp only [incrementEach, List.forall₂_cons_left_iff, raised_iff, ← ih]
    cases hn : numberOf? value with
    | none => simp
    | some n =>
      rcases incrementEach delta rest with ⟨more, complete⟩
      simp [decimal, eq_comm, and_comm]

theorem incrementOf?_eq_some_iff : incrementOf? values = some delta ↔
    ∃ value, values = [value] ∧ Spells value delta.toInt := by
  unfold incrementOf?
  split
  · simp [Text.numberOf?_eq_some_iff]
  · rename_i hnot
    refine iff_of_false nofun ?_
    rintro ⟨value, rfl, -⟩
    exact hnot value rfl

theorem increment_run (e : Entry) (name : String) (values : List (List UInt8)) : (increment name values).run e =
    match incrementOf? values, e.attribute? name with
    | none, _ => .error .incrementValue e
    | some _, none => .error (.incrementMissing name) e
    | some delta, some a =>
      let after := e.setValues name fun _ => (incrementEach delta a.values).1
      if (incrementEach delta a.values).2 then .ok () after else .error (.notInteger name) after := by
  unfold increment
  cases incrementOf? values with
  | none => rfl
  | some delta =>
    rw [EStateM.run_bind, EStateM.run_get]
    dsimp only
    cases e.attribute? name with
    | none => rfl
    | some a =>
      by_cases hc : (incrementEach delta a.values).2 = true
      · simp only [hc]
        rfl
      · simp only [hc]
        rfl

theorem increment_run_iff : (increment name values).run e = .ok () after ↔
    ∃ delta a raised, incrementOf? values = some delta ∧ e.attribute? name = some a ∧
      List.Forall₂ (Raised delta.toInt) a.values raised ∧ after = e.setValues name fun _ => raised := by
  simp only [← incrementEach_eq_iff, increment_run]
  cases incrementOf? values with
  | none => simp
  | some delta =>
    cases e.attribute? name with
    | none => simp
    | some a =>
      by_cases hc : (incrementEach delta a.values).2 = true
      · simp [Prod.ext_iff, hc, @eq_comm _ after]
      · simp [Prod.ext_iff, hc]

/-- An increment succeeds just if it is given as one numeral and all values of the attribute are numerals. Then these
are raised, their number stays, and so do all other attributes. -/
theorem apply_increment_iff (e after : Entry) (name : String) (values : List (List UInt8)) (permissive : Bool) :
    (change ⟨.increment, name, values⟩ permissive).apply e = .ok after ↔
      ∃ (value : List UInt8) (amount : Int) (front back : List Attribute) (a : Attribute) (raised : List (List UInt8)),
        values = [value] ∧ Spells value amount ∧
        e.attributes = front ++ a :: back ∧ (∀ x ∈ front, ¬ sameText x.name name) ∧ sameText a.name name ∧
        List.Forall₂ (Raised amount) a.values raised ∧ raised.length = a.values.length ∧
        after = { e with attributes := front ++ { a with values := raised } :: back } := by
  rw [apply_eq_ok_iff]
  change (increment name values).run e = .ok () after ↔ _
  rw [increment_run_iff]
  constructor
  · rintro ⟨delta, a, raised, hdelta, ha, hraised, rfl⟩
    obtain ⟨value, rfl, hvalue⟩ := incrementOf?_eq_some_iff.mp hdelta
    obtain ⟨front, back, he, hf, hname⟩ := Entry.attribute?_eq_some_iff.mp ha
    exact ⟨value, delta.toInt, front, back, a, raised, rfl, hvalue, he, hf, hname, hraised, hraised.length_eq.symm,
      Entry.setValues_of_append he hf hname _⟩
  · rintro ⟨value, amount, front, back, a, raised, rfl, hvalue, he, hf, hname, hraised, -, rfl⟩
    rw [← Text.toInt_ofInt_of_fits hvalue.1] at hraised
    refine ⟨_, a, raised, hvalue.numberOf?, Entry.attribute?_eq_some_iff.mpr ⟨front, back, he, hf, hname⟩, hraised, ?_⟩
    rw [Entry.setValues_of_append he hf hname]

/-- Above the largest number of 64 bits comes the smallest one, and below that the largest, so that a value need not be
the sum. -/
theorem not_apply_increment_exact :
    let counter (z : Int) : Entry := { dn := "cn=a", attributes := [⟨"n", [decimal z]⟩] }
    (change ⟨.increment, "n", [decimal 1]⟩ false).apply (counter (2 ^ 63 - 1)) = .ok (counter (-2 ^ 63)) ∧
      decimal (-2 ^ 63) ≠ decimal (2 ^ 63 - 1 + 1) ∧
      (change ⟨.increment, "n", [decimal (-1)]⟩ false).apply (counter (-2 ^ 63)) = .ok (counter (2 ^ 63 - 1)) ∧
      decimal (2 ^ 63 - 1) ≠ decimal (-2 ^ 63 + -1) := by
  refine ⟨?_, by decide +kernel, ?_, by decide +kernel⟩
  · rfl
  · rfl

end Edit

end Ldap
