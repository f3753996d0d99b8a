import Ldap.Text.Blank
import Mathlib.Data.List.DropRight

/-! Texts without the blanks at their ends. A text that neither begins nor ends with a blank is left as it is, and any
other one loses what stands outside its first and its last character that is not blank. -/

namespace Ldap.Text

variable {b c : Char} {cs : List Char}

theorem ne_of_isBlank (hb : isBlank b) (hc : isBlank c = false) : c ≠ b := by
  rintro rfl
  simp [hb] at hc

theorem trimChars_eq (cs : List Char) : trimChars cs = (cs.dropWhile isBlank).rdropWhile isBlank := rfl

/-- What does not depend on a blank at either end does not change when a text is trimmed. -/
theorem apply_trimChars {α : Sort*} (f : List Char → α) (hfront : ∀ b cs, isBlank b → f (b :: cs) = f cs)
    (hback : ∀ b cs, isBlank b → f (cs ++ [b]) = f cs) (cs : List Char) : f (trimChars cs) = f cs := by
  have hdrop : ∀ cs, f (cs.dropWhile isBlank) = f cs := by
    intro cs
    induction cs with
    | nil => rfl
    | cons b cs ih =>
      rw [List.dropWhile_cons]
      split
      · rw [ih, hfront b cs ‹_›]
      · rfl
  have hrdrop : ∀ cs, f (cs.rdropWhile isBlank) = f cs := by
    intro cs
    induction cs using List.reverseRecOn with
    | nil => rfl
    | append_singleton cs b ih =>
      by_cases hb : isBlank b = true
      · rw [List.rdropWhile_concat_pos _ _ _ hb, ih, hback b cs hb]
      · rw [List.rdropWhile_concat_neg _ _ _ hb]
  rw [trimChars_eq, hrdrop, hdrop]

theorem mem_of_mem_trimChars (h : c ∈ trimChars cs) : c ∈ cs := by
  rw [trimChars_eq] at h
  exact (List.dropWhile_sublist _).subset ((List.rdropWhile_prefix _ _).subset h)

theorem mem_trimChars (hc : isBlank c = false) : c ∈ trimChars cs ↔ c ∈ cs := by
  refine iff_of_eq (apply_trimChars (c ∈ ·) (fun b cs hb => ?_) (fun b cs hb => ?_) cs)
  · simp [ne_of_isBlank hb hc]
  · simp [ne_of_isBlank hb hc]

/-! ### Texts that stay -/

theorem trimChars_eq_self_iff : trimChars cs = cs ↔
    (∀ c ∈ cs.head?, ¬ isBlank c) ∧ ∀ c ∈ cs.getLast?, ¬ isBlank c := by
  have hfront : cs.dropWhile isBlank = cs ↔ ∀ c ∈ cs.head?, ¬ isBlank c := by
    rw [List.dropWhile_eq_self_iff]
    cases cs <;> simp
  have hback : cs.rdropWhile isBlank = cs ↔ ∀ c ∈ cs.getLast?, ¬ isBlank c := by
    rw [List.rdropWhile_eq_self_iff]
    rcases List.eq_nil_or_concat cs with rfl | ⟨front, last, rfl⟩ <;> simp
  rw [trimChars_eq, ← hfront, ← hback]
  constructor
  · intro h
    have hdrop : cs.dropWhile isBlank = cs := by
      refine (List.dropWhile_sublist _).eq_of_length_le ?_
      conv_lhs => rw [← h]
      exact (List.rdropWhile_prefix _ _).length_le
    exact ⟨hdrop, by rwa [hdrop] at h⟩
  · rintro ⟨hdrop, hrdrop⟩
    rw [hdrop, hrdrop]

@[simp] theorem trimChars_trimChars (cs : List Char) : trimChars (trimChars cs) = trimChars cs := by
  have hfront : (trimChars cs).dropWhile isBlank = trimChars cs := by
    rcases ht : trimChars cs with _ | ⟨first, others⟩
    · rfl
    · obtain ⟨blanks, hb⟩ := List.rdropWhile_prefix isBlank (cs.dropWhile isBlank)
      rw [← trimChars_eq, ht] at hb
      have hfirst := List.head?_dropWhile_not isBlank cs
      rw [← hb] at hfirst
      have hnot : isBlank first = false := by simpa using hfirst
      rw [List.dropWhile_cons_of_neg (by simp [hnot])]
  rw [trimChars_eq (trimChars cs), hfront, trimChars_eq, List.rdropWhile_idempotent]

theorem trim_trim (s : String) : trim (trim s) = trim s := by
  rw [trim, trim, String.toList_ofList, trimChars_trimChars]

/-! ### Blanks around a text -/

theorem trimChars_cons (hb : isBlank b) (cs : List Char) : trimChars (b :: cs) = trimChars cs := by
  rw [trimChars_eq, List.dropWhile_cons_of_pos hb, ← trimChars_eq]

theorem trimChars_concat (hb : isBlank b) (cs : List Char) : trimChars (cs ++ [b]) = trimChars cs := by
  rw [trimChars_eq, trimChars_eq, List.dropWhile_append]
  split
  · rename_i he
    rw [List.isEmpty_iff.mp he, List.dropWhile_cons_of_pos hb]
    rfl
  · exact List.rdropWhile_concat_pos _ _ _ hb

variable {front back : List Char}

theorem trimChars_append (hf : ∀ c ∈ front, isBlank c) (hb : ∀ c ∈ back, isBlank c) (cs : List Char) :
    trimChars (front ++ cs ++ back) = trimChars cs := by
  have hfront : trimChars (front ++ cs) = trimChars cs := by
    induction front with
    | nil => rfl
    | cons c front ih =>
      rw [List.cons_append, trimChars_cons (hf c List.mem_cons_self)]
      exact ih fun c hc => hf c (List.mem_cons_of_mem _ hc)
  rw [← hfront]
  induction back using List.reverseRecOn with
  | nil => rw [List.append_nil]
  | append_singleton back c ih =>
    rw [← List.append_assoc, trimChars_concat (hb c (by simp))]
    exact ih fun c hc => hb c (by simp [hc])

/-- What is trimmed away are blanks. -/
theorem exists_eq_append_trimChars (cs : List Char) : ∃ front back, (∀ c ∈ front, isBlank c) ∧ (∀ c ∈ back, isBlank c) ∧
    cs = front ++ trimChars cs ++ back := by
  refine ⟨cs.takeWhile isBlank, (cs.dropWhile isBlank).rtakeWhile isBlank, fun c => List.mem_takeWhile_imp,
    fun c => List.mem_rtakeWhile_imp, ?_⟩
  rw [trimChars_eq, List.append_assoc, List.rdropWhile_append_rtakeWhile, List.takeWhile_append_dropWhile]

end Ldap.Text
