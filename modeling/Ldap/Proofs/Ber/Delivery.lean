import Ldap.Ber.Reader
import Mathlib.Tactic.Common

/-! What a read from the transport does to the bytes that are still to come: it takes some off their
front and leaves the others. Several bytes are read as if each were read on its own. A transport that
only hands over bytes, or interrupts, ends a read early only where its bytes end. -/

namespace Ldap.Ber

namespace Delivery

/-- The bytes that a transport hands over, failures aside. -/
def content : List Delivery → List UInt8
  | [] => []
  | .bytes chunk :: rest => chunk ++ content rest
  | _ :: rest => content rest

theorem content_append (ds more : List Delivery) : content (ds ++ more) = content ds ++ content more := by
  induction ds with
  | nil => rfl
  | cons d ds ih => cases d <;> simp [content, ih]

theorem content_bytes (chunk : List UInt8) : content [.bytes chunk] = chunk := List.append_nil chunk

/-- Bytes or an interruption. -/
def isPlain : Delivery → Bool
  | .bytes _ | .interrupted => true
  | .timeout | .failure _ => false

/-- The transport neither fails nor keeps waiting. -/
def Plain (ds : List Delivery) : Prop := ∀ d ∈ ds, d.isPlain

instance (ds : List Delivery) : Decidable (Plain ds) :=
  inferInstanceAs (Decidable (∀ d ∈ ds, d.isPlain))

theorem plain_bytes (chunk : List UInt8) : Plain [.bytes chunk] := fun d hd => by
  rw [List.mem_singleton.mp hd]
  rfl

theorem Plain.tail {d : Delivery} {ds : List Delivery} (h : Plain (d :: ds)) : Plain ds :=
  fun e he => h e (List.mem_cons_of_mem d he)

end Delivery

open Delivery

@[simp] theorem pull_zero (ignore : Bool) (ds : List Delivery) : pull ignore 0 ds = ⟨[], .filled, ds⟩ := by
  cases ds <;> simp [pull]

@[simp] theorem pull_succ_interrupted (ignore : Bool) (n : Nat) (ds : List Delivery) :
    pull ignore (n + 1) (.interrupted :: ds) = pull ignore (n + 1) ds := by
  simp [pull]

@[simp] theorem pull_succ_timeout (n : Nat) (ds : List Delivery) :
    pull true (n + 1) (.timeout :: ds) = pull true (n + 1) ds := by
  simp [pull]

@[simp] theorem pull_succ_bytes_nil (ignore : Bool) (n : Nat) (ds : List Delivery) :
    pull ignore (n + 1) (.bytes [] :: ds) = pull ignore (n + 1) ds := by
  simp [pull]

example : pull false 3 [.bytes [1], .interrupted, .bytes [], .bytes [2, 3, 4]] = ⟨[1, 2, 3], .filled, [.bytes [4]]⟩ := by
  cbv

theorem content_pull (ignore : Bool) (n : Nat) (ds : List Delivery) :
    content ds = (pull ignore n ds).got ++ content (pull ignore n ds).rest := by
  fun_induction pull ignore n ds with
  | case1 => simp [content]
  | case2 => simp
  | case3 n rest hn chunk hl t ih => simp [content, ih, t]
  | case4 n rest hn chunk hne =>
    rw [content, content, ← List.append_assoc, List.take_append_drop]
  | case5 n rest hn ih => simpa [content] using ih
  | case6 n rest hn h ih => simpa [content] using ih
  | case7 => simp [content]
  | case8 => simp [content]

theorem length_got (ignore : Bool) (n : Nat) (ds : List Delivery)
    (h : (pull ignore n ds).outcome = .filled) : (pull ignore n ds).got.length = n := by
  fun_induction pull ignore n ds with
  | case1 n => simp_all
  | case2 => rfl
  | case3 n rest hn chunk hl t ih =>
    have hle : chunk.length ≤ n := List.drop_eq_nil_iff.mp hl
    have := ih h
    simp only [List.length_append, t]
    omega
  | case4 n rest hn chunk hne =>
    have hlt : n < chunk.length := by
      by_contra hle
      exact hne (List.drop_eq_nil_of_le (Nat.not_lt.mp hle))
    rw [List.length_take, Nat.min_eq_left (Nat.le_of_lt hlt)]
  | case5 n rest hn ih => exact ih h
  | case6 n rest hn hi ih => exact ih h
  | case7 => simp at h
  | case8 => simp at h

theorem rest_of_ended (ignore : Bool) (n : Nat) (ds : List Delivery)
    (h : (pull ignore n ds).outcome = .ended) : (pull ignore n ds).rest = [] := by
  fun_induction pull ignore n ds with
  | case1 => rfl
  | case2 => simp at h
  | case3 n rest hn chunk hl t ih => exact ih h
  | case4 => simp at h
  | case5 n rest hn ih => exact ih h
  | case6 n rest hn hi ih => exact ih h
  | case7 => simp at h
  | case8 => simp at h

/-- A read that meets the end of the input has obtained too little. -/
theorem length_got_of_ended (ignore : Bool) (n : Nat) (ds : List Delivery)
    (h : (pull ignore n ds).outcome = .ended) : (pull ignore n ds).got.length < n := by
  fun_induction pull ignore n ds with
  | case1 n =>
    by_contra hn
    simp_all
  | case2 => simp at h
  | case3 n rest hn chunk hl t ih =>
    have := ih h
    simp only [List.length_append, t]
    omega
  | case4 => simp at h
  | case5 n rest hn ih => exact ih h
  | case6 n rest hn hi ih => exact ih h
  | case7 => simp at h
  | case8 => simp at h

/-- Reads the first of several bytes, and the others unless that fails. -/
theorem pull_succ (ignore : Bool) (n : Nat) (ds : List Delivery) :
    pull ignore (n + 1) ds = match (pull ignore 1 ds).outcome with
      | .filled =>
        { pull ignore n (pull ignore 1 ds).rest with
          got := (pull ignore 1 ds).got ++ (pull ignore n (pull ignore 1 ds).rest).got }
      | _ => pull ignore 1 ds := by
  induction ds with
  | nil => simp [pull]
  | cons d rest ih =>
    cases d with
    | timeout =>
      cases ignore with
      | true => simpa using ih
      | false => simp [pull]
    | interrupted => simpa using ih
    | failure reason => simp [pull]
    | bytes chunk =>
      match chunk with
      | [] => simpa using ih
      | [b] => simp [pull]
      | b :: c :: chunk =>
        -- the second byte is still in the chunk, so nothing else is read for the first
        cases n with
        | zero => simp [pull]
        | succ n =>
          simp only [pull, List.drop_succ_cons, List.drop_zero, List.take_succ_cons, List.take_zero,
            List.length_cons, Nat.add_sub_add_right, Nat.add_one_ne_zero, if_false]
          cases hd : chunk.drop n <;> simp

/-- A read obtains the first bytes of several, and then the others unless that fails. -/
theorem pull_add (ignore : Bool) (m n : Nat) (ds : List Delivery) : pull ignore (m + n) ds =
    match (pull ignore m ds).outcome with
    | .filled =>
      { pull ignore n (pull ignore m ds).rest with
        got := (pull ignore m ds).got ++ (pull ignore n (pull ignore m ds).rest).got }
    | _ => pull ignore m ds := by
  induction m generalizing ds with
  | zero => simp
  | succ m ih =>
    rw [Nat.add_right_comm, pull_succ ignore (m + n), pull_succ ignore m]
    cases hone : (pull ignore 1 ds).outcome with
    | filled =>
      dsimp only
      rw [ih]
      cases hothers : (pull ignore m (pull ignore 1 ds).rest).outcome <;> simp [hothers]
    | _ => simp only [hone]

/-! ### Plain deliveries -/

/-- The next byte is taken off the front of what a plain transport hands over. -/
theorem pull_one_of_plain {ds : List Delivery} {b : UInt8} {bytes : List UInt8} (hp : Plain ds)
    (hc : content ds = b :: bytes) : ∃ left, Plain left ∧ content left = bytes ∧
      ∀ ignore more, pull ignore 1 (ds ++ more) = ⟨[b], .filled, left ++ more⟩ := by
  induction ds with
  | nil => simp [content] at hc
  | cons d rest ih =>
    cases d with
    | timeout => exact absurd (hp .timeout List.mem_cons_self) Bool.false_ne_true
    | failure reason => exact absurd (hp (.failure reason) List.mem_cons_self) Bool.false_ne_true
    | interrupted =>
      obtain ⟨left, hl, hlc, hpull⟩ := ih hp.tail hc
      exact ⟨left, hl, hlc, fun ignore more => (pull_succ_interrupted ignore 0 _).trans (hpull ignore more)⟩
    | bytes chunk =>
      match chunk with
      | [] =>
        obtain ⟨left, hl, hlc, hpull⟩ := ih hp.tail hc
        exact ⟨left, hl, hlc, fun ignore more => (pull_succ_bytes_nil ignore 0 _).trans (hpull ignore more)⟩
      | [c] =>
        obtain ⟨rfl, hrest⟩ : c = b ∧ content rest = bytes := by simpa [content] using hc
        exact ⟨rest, hp.tail, hrest, fun ignore more => by simp [pull]⟩
      | c :: c' :: chunk =>
        obtain ⟨rfl, hrest⟩ : c = b ∧ c' :: (chunk ++ content rest) = bytes := by
          simpa [content] using hc
        refine ⟨.bytes (c' :: chunk) :: rest, ?_, by simpa [content] using hrest, ?_⟩
        · intro d hd
          obtain rfl | hd := List.mem_cons.mp hd
          · rfl
          · exact hp.tail d hd
        · intro ignore more
          simp [pull]

/-- Where a plain transport has no byte left, a read passes on to what comes next. -/
theorem pull_append_of_plain {ds : List Delivery} (hp : Plain ds) (hc : content ds = [])
    (ignore : Bool) (n : Nat) (more : List Delivery) :
    pull ignore (n + 1) (ds ++ more) = pull ignore (n + 1) more := by
  induction ds with
  | nil => rfl
  | cons d rest ih =>
    cases d with
    | timeout => exact absurd (hp .timeout List.mem_cons_self) Bool.false_ne_true
    | failure reason => exact absurd (hp (.failure reason) List.mem_cons_self) Bool.false_ne_true
    | interrupted => exact (pull_succ_interrupted ignore n _).trans (ih hp.tail hc)
    | bytes chunk =>
      obtain ⟨rfl, hrest⟩ : chunk = [] ∧ content rest = [] := by simpa [content] using hc
      exact (pull_succ_bytes_nil ignore n _).trans (ih hp.tail hrest)

/-- A read takes what it asks for off the front of what a plain transport hands over. -/
theorem pull_append_of_le {ds : List Delivery} {n : Nat} (hp : Plain ds) (hn : n ≤ (content ds).length) :
    ∃ left, Plain left ∧ content left = (content ds).drop n ∧ ∀ ignore more,
      pull ignore n (ds ++ more) = ⟨(content ds).take n, .filled, left ++ more⟩ := by
  induction n generalizing ds with
  | zero => exact ⟨ds, hp, rfl, fun ignore more => pull_zero ignore _⟩
  | succ n ih =>
    obtain ⟨b, bytes, hc⟩ := List.exists_cons_of_length_pos (Nat.zero_lt_of_lt hn)
    obtain ⟨left, hl, hlc, hone⟩ := pull_one_of_plain hp hc
    rw [hc, List.length_cons, ← hlc] at hn
    obtain ⟨rest, hr, hrc, hpull⟩ := ih hl (Nat.le_of_succ_le_succ hn)
    rw [hc]
    refine ⟨rest, hr, by rw [hrc, hlc, List.drop_succ_cons], fun ignore more => ?_⟩
    rw [pull_succ, hone, hpull, hlc, List.take_succ_cons]
    rfl

/-- A read that asks for more than a plain transport hands over takes all that there is. -/
theorem pull_of_lt {ds : List Delivery} {n : Nat} (hp : Plain ds) (hn : (content ds).length < n) (ignore : Bool) :
    pull ignore n ds = ⟨content ds, .ended, []⟩ := by
  fun_induction pull ignore n ds with
  | case1 n =>
    rw [content] at hn
    rw [content, if_neg (Nat.ne_of_gt (Nat.zero_lt_of_lt hn))]
  | case2 d rest => exact absurd hn (Nat.not_lt_zero _)
  | case3 n rest hn0 chunk hl t ih =>
    rw [content, List.length_append] at hn
    rw [content, show t = _ from ih hp.tail (by omega)]
  | case4 n rest hn0 chunk hne =>
    rw [content, List.length_append] at hn
    exact absurd (List.drop_eq_nil_of_le (by omega)) hne
  | case5 n rest hn0 ih => exact ih hp.tail hn
  | case6 n rest hn0 hi ih => exact absurd (hp .timeout List.mem_cons_self) Bool.false_ne_true
  | case7 => exact absurd (hp .timeout List.mem_cons_self) Bool.false_ne_true
  | case8 n rest hn0 reason => exact absurd (hp (.failure reason) List.mem_cons_self) Bool.false_ne_true

/-- A read from a plain transport obtains what it asks for, or all that there is. -/
theorem pull_of_plain {ds : List Delivery} (hp : Plain ds) (n : Nat) :
    ∃ left, Plain left ∧ content left = (content ds).drop n ∧ ∀ ignore, pull ignore n ds =
      ⟨(content ds).take n, if n ≤ (content ds).length then .filled else .ended, left⟩ := by
  by_cases hn : n ≤ (content ds).length
  · obtain ⟨left, hl, hlc, hpull⟩ := pull_append_of_le hp hn
    refine ⟨left, hl, hlc, fun ignore => ?_⟩
    have hall := hpull ignore []
    rw [List.append_nil, List.append_nil] at hall
    rw [hall, if_pos hn]
  · have hlt := Nat.lt_of_not_le hn
    refine ⟨[], nofun, (List.drop_eq_nil_of_le (Nat.le_of_lt hlt)).symm, fun ignore => ?_⟩
    rw [pull_of_lt hp hlt, if_neg hn, List.take_of_length_le (Nat.le_of_lt hlt)]

end Ldap.Ber
