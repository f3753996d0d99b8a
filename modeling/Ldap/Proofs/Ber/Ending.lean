import Ldap.Proofs.Ber.Quiet
import Ldap.Proofs.Ber.Reads

/-! The end of the input. A transport that interrupts last of all shows whether a reader has come to the end: a
step that has found all its bytes leaves the interruption where it is. A step that has not been to the end does
the same if more is to come. -/

namespace Ldap.Ber

open Delivery

variable {α β : Type} {p : ReadM α} {r r' : Reader} {bounds : Bounds}

/-! ### Open readers -/

/-- The end of the input is still ahead, behind a last interruption. -/
def Reader.Open (r : Reader) : Prop := ∃ ds, Plain ds ∧ r.source = some (ds ++ [.interrupted])

theorem plain_append_interrupted {ds : List Delivery} (hp : Plain ds) : Plain (ds ++ [.interrupted]) := by
  intro d hd
  obtain hd | hd := List.mem_append.mp hd
  · exact hp d hd
  · rw [List.mem_singleton.mp hd]
    rfl

/-- A read leaves the end ahead, or it finds too few bytes. -/
theorem pull_of_open {ds : List Delivery} (hp : Plain ds) (ignore : Bool) (n : Nat) :
    (∃ left, Plain left ∧ content left = (content ds).drop n ∧ n ≤ (content ds).length ∧
      pull ignore n (ds ++ [.interrupted]) = ⟨(content ds).take n, .filled, left ++ [.interrupted]⟩) ∨
    pull ignore n (ds ++ [.interrupted]) = ⟨content ds, .ended, []⟩ := by
  by_cases hn : n ≤ (content ds).length
  · obtain ⟨left, hl, hlc, hpull⟩ := pull_append_of_le hp hn
    exact .inl ⟨left, hl, hlc, hn, hpull ignore _⟩
  · have hc : content (ds ++ [.interrupted]) = content ds := by simp [content_append, content]
    rw [pull_of_lt (plain_append_interrupted hp) (by rw [hc]; exact Nat.lt_of_not_le hn), hc]
    exact .inr rfl

/-- Deliveries behind which more is to come, up to the end of the former. -/
def Coupling.ofOpen (more : List UInt8) : Coupling where
  allows _ := True
  coupled ds ds' := ∃ ys, Plain ys ∧ ds = ys ++ [.interrupted] ∧ Plain ds' ∧ content ds' = content ys ++ more
  beyond ds := ds = []
  beyond_pull ignore n ds hds := by
    rw [hds]
    rfl
  beyond_nil _ := rfl
  coupled_pull := by
    rintro ignore n ds ds' - ⟨ys, hp, rfl, hp', hc⟩
    obtain ⟨left, hl, hlc, hn, hpull⟩ | hpull := pull_of_open hp ignore n
    · obtain ⟨left', hl', hlc', hpull'⟩ := pull_of_plain hp' n
      have hn' : n ≤ (content ds').length := by
        rw [hc, List.length_append]
        exact Nat.le_add_right_of_le hn
      rw [hpull, hpull', if_pos hn', hc, List.take_append_of_le_length hn]
      refine .inr ⟨rfl, rfl, left, hl, rfl, hl', ?_⟩
      rw [hlc', hlc, hc, List.drop_append_of_le_length hn]
    · rw [hpull]
      exact .inl rfl

/-! ### Steps -/

/-- The end is still ahead of the reader, or a step has failed because of it. -/
def Ahead : EStateM.Result Error Reader α → Prop := Leaves Reader.Open fun e r => e.kind = .truncated "" ∨ r.Open

theorem Ahead.of_answer (h : p.answer r = .error (.truncated "")) : Ahead (p.run r) := by
  rw [ReadM.answer] at h
  cases hrun : p.run r with
  | ok a r' =>
    rw [hrun] at h
    cases h
  | error e r' =>
    rw [hrun] at h
    exact .inl (Except.error.inj h)

/-- On an open reader the step leaves one, or fails because of the end of the input. -/
def KeepsOpen (p : ReadM α) : Prop := ∀ r, r.Open → Ahead (p.run r)

namespace ReadM

/-- A single read leaves the end ahead, or it meets the end. -/
theorem run_firstByte_open (hr : r.Open) :
    (∃ tag r', firstByte.run r = .ok (some tag) r' ∧ r'.Open ∧ r'.consumed = r.consumed) ∨
      firstByte.run r = .ok none { r with source := some [] } := by
  obtain ⟨ds, hp, hs⟩ := hr
  rw [firstByte_eq, run_transfer, hs]
  dsimp only
  obtain ⟨left, hl, -, hn, hpull⟩ | hpull := pull_of_open hp (if true then r.ignoreInitialTimeout else _) 1
  · obtain ⟨tag, bytes, hc⟩ := List.exists_cons_of_length_pos hn
    rw [hpull, hc]
    exact .inl ⟨tag, _, rfl, ⟨left, hl, rfl⟩, rfl⟩
  · rw [hpull]
    exact .inr rfl

/-- Looking ahead finds a tag and leaves the end ahead, or it meets the end. -/
theorem run_peek_open (hr : r.Open) :
    (∃ tag r', peek.run r = .ok (some tag) r' ∧ r'.Open ∧ r'.consumed = r.consumed) ∨
      peek.run r = .ok none { r with source := some [], lookahead := none } := by
  obtain ⟨source, _ | tag, consumed, limit, initial, later⟩ := r
  · change (∃ tag r', EStateM.run (firstByte >>= _) _ = _ ∧ _) ∨ EStateM.run (firstByte >>= _) _ = _
    obtain ⟨tag, t, hx, ht, hc⟩ | hx := run_firstByte_open hr
    · rw [run_bind_of_ok hx]
      exact .inl ⟨tag, _, rfl, ht, hc⟩
    · rw [run_bind_of_ok hx]
      exact .inr rfl
  · exact .inl ⟨tag, _, rfl, hr, rfl⟩

theorem run_tag?_open (hr : r.Open) :
    (∃ tag r', tag?.run r = .ok (some tag) r' ∧ r'.Open) ∨ ∃ r', tag?.run r = .ok none r' := by
  obtain ⟨source, _ | tag, consumed, limit, initial, later⟩ := r
  · change (∃ tag r', EStateM.run (firstByte >>= _) _ = _ ∧ _) ∨ ∃ r', EStateM.run (firstByte >>= _) _ = _
    obtain ⟨tag, t, hx, ht, -⟩ | hx := run_firstByte_open hr
    · rw [run_bind_of_ok hx]
      exact .inl ⟨tag, _, rfl, ht⟩
    · rw [run_bind_of_ok hx]
      exact .inr ⟨_, rfl⟩
  · exact .inl ⟨tag, _, rfl, hr⟩

theorem run_more_of_lt (h : bounds.stop < r.consumed) :
    (more bounds).run r = .error (.sequenceOverrun bounds.length) r := by
  rw [more, run_bind_of_ok (show (get : ReadM Reader).run r = .ok r r from rfl)]
  dsimp only
  rw [if_pos h]
  rfl

end ReadM

namespace KeepsOpen

theorem sequential : Sequential fun _ => KeepsOpen := Keeps.sequential fun _ hr => .inr hr

/-- Where a tag may be missing, what is read then must notice the end of the input. -/
theorem run_peek_bind {f : Option UInt8 → ReadM β} {stop : Nat} (hr : r.Open) (hc : r.consumed < stop)
    (hf : ∀ tag?, KeepsOpen (f tag?)) (hs : Starves stop (f none)) : Ahead ((ReadM.peek >>= f).run r) := by
  obtain ⟨tag, t, hx, ht, -⟩ | hx := ReadM.run_peek_open hr
  · rw [ReadM.run_bind_of_ok hx]
    exact hf (some tag) t ht
  · rw [ReadM.run_bind_of_ok hx]
    exact .of_answer (hs _ rfl rfl hc)

theorem peek_bind {f : Option UInt8 → ReadM β} (hf : ∀ tag?, KeepsOpen (f tag?))
    (hs : ∀ stop, Starves stop (f none)) : KeepsOpen (ReadM.peek >>= f) := fun _ hr =>
  run_peek_bind hr (Nat.lt_succ_self _) hf (hs _)

theorem bytes (n : Nat) (part : String) : KeepsOpen (ReadM.bytes n part) := by
  cases n with
  | zero => exact sequential.pure []
  | succ n =>
    rintro r ⟨ds, hp, hs⟩
    rw [ReadM.bytes_succ_eq, ReadM.run_transfer, hs]
    dsimp only
    obtain ⟨left, hl, -, -, hpull⟩ | hpull := pull_of_open hp (if false then _ else r.ignoreLaterTimeout) (n + 1)
    · rw [hpull]
      exact ⟨left, hl, rfl⟩
    · rw [hpull]
      exact .inl rfl

theorem demanding : Demanding fun _ => KeepsOpen where
  toSequential := sequential
  requiredTag part r hr := by
    rw [ReadM.requiredTag]
    obtain ⟨tag, t, hx, ht⟩ | ⟨t, hx⟩ := ReadM.run_tag?_open hr
    · rw [ReadM.run_bind_of_ok hx]
      exact ht
    · rw [ReadM.run_bind_of_ok hx]
      exact .inl rfl
  peekRequired part := by
    refine peek_bind (fun tag? => ?_) fun _ => Starves.throw part
    cases tag? with
    | some tag => exact sequential.pure tag
    | none => exact sequential.throw rfl
  bytes := bytes

theorem watchful : Watchful fun _ => KeepsOpen where
  toDemanding := demanding
  peek_bind := peek_bind
  tagWithin_bind {_ bounds f} hf hs r hr := by
    rw [ReadM.tagWithin, bind_assoc]
    by_cases hover : bounds.stop < r.consumed
    · rw [ReadM.run_bind_of_error (ReadM.run_more_of_lt hover)]
      exact .inr hr
    · rw [ReadM.run_bind_of_ok (ReadM.run_of_answer_ok (ReadM.answer_more (Nat.le_of_not_lt hover)))]
      by_cases hc : r.consumed < bounds.stop
      · rw [decide_eq_true hc, if_pos rfl]
        exact run_peek_bind hr hc hf hs
      · rw [decide_eq_false hc, if_neg Bool.false_ne_true]
        exact hf none r hr

end KeepsOpen
end Ldap.Ber
