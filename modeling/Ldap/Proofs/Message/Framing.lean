import Ldap.Proofs.Ber.Moves
import Ldap.Proofs.Message.Codec

/-! Where a message ends on a stream. A reader of a part may be led past the end of the sequence around
it, but whoever opened that sequence notices, so a message that is accepted ends where its outermost
element says. -/

namespace Ldap

open Ber (ReadM Reader Bounds Moves Settled Within)

variable {P : Reader → Prop} {bounds : Bounds}

/-! ### Filters -/

namespace Filter

theorem Parts.moves (parts : Parts) : Moves P parts.read fun _ => Settled :=
  (Moves.peekRequired "substring").bind fun _ => Moves.octets.bind fun _ => Moves.lift _

theorem Match.moves (m : Match) : Moves P m.read fun _ => Settled := by
  refine (Moves.peekRequired "filter").bind fun tag => ?_
  split
  · exact Moves.map Moves.text
  split
  · exact Moves.map Moves.text
  split
  · exact Moves.map Moves.octets
  split
  · exact Moves.map Moves.boolean
  · exact Moves.throw _

theorem moves_leaf (tag : UInt8) : Moves P (readLeaf tag) fun _ => Settled := by
  unfold readLeaf
  split
  · exact Moves.sequence.bind fun _ => Moves.text.bind fun _ => Moves.map Moves.octets
  split
  · exact Moves.sequence.bind fun _ => Moves.text.bind fun _ => Moves.sequence.bind fun _ =>
      (Moves.components Parts.moves {}).settled.bind fun _ => Moves.pure _
  split
  · exact Moves.map Moves.text
  split
  · exact Moves.sequence.bind fun _ => (Moves.components Match.moves {}).settled.bind fun _ => Moves.lift _
  · exact Moves.throw _

theorem moves_levels (levels : Nat) : Moves P (readLevels levels) fun _ => Settled := by
  induction levels generalizing P with
  | zero => exact Moves.throw _
  | succ levels ih =>
    refine (Moves.peekRequired "filter").bind fun tag => ?_
    split
    · exact Moves.sequence.bind fun _ => Moves.map (Moves.listOf ih)
    split
    · exact Moves.sequence.bind fun _ => Moves.map (Moves.listOf ih)
    split
    · refine Moves.sequence.bind fun bounds => ih.bind fun f => Moves.more.bind fun more => ?_
      split
      · exact Moves.throw_bind _ _
      · exact Moves.pure_of fun _ h => h.1
    · exact moves_leaf tag

end Filter

/-! ### Parts of operations -/

theorem Result.moves : Moves Settled (Result.readComponents bounds) fun _ => Within bounds.stop := by
  refine Moves.integer.bind fun code => Moves.text.bind fun matchedDn => Moves.text.bind fun message =>
    Moves.tagWithin.settled.bind fun tag? => ?_
  split
  · exact Moves.sequence.bind fun _ => (Moves.listOf Moves.text).bind fun _ =>
      Moves.pure_of fun _ h => h.within _
  · exact Moves.pure _

theorem Attribute.moves : Moves P Attribute.read fun _ => Settled :=
  Moves.sequence.bind fun _ => Moves.text.bind fun _ => Moves.sequence.bind fun _ =>
    (Moves.listOf Moves.octets).bind fun _ => Moves.skipRest.settled.bind fun _ => Moves.pure _

theorem Attribute.moves_list : Moves P Attribute.readList fun _ => Settled :=
  Moves.sequence_listOf Attribute.moves

theorem BindRequest.moves_credentials : Moves P readCredentials fun _ => Settled := by
  refine (Moves.peek (C := fun _ => True)).always.bind fun tag? => ?_
  split
  · refine Moves.sequence.bind fun bounds => Moves.text.bind fun mechanism => Moves.more.bind fun more => ?_
    dsimp only
    split
    · exact (Moves.map Moves.octets).bind fun _ => Moves.skipRest.settled.bind fun _ => Moves.pure _
    · exact (Moves.pure_of fun _ h => h.1).bind fun _ => Moves.skipRest.settled.bind fun _ => Moves.pure _
  · exact Moves.map Moves.octets

theorem BindRequest.moves : Moves P BindRequest.read fun _ => Settled :=
  Moves.sequence.bind fun _ => Moves.integer.bind fun _ => Moves.text.bind fun _ =>
    moves_credentials.bind fun _ => Moves.skipRest.settled.bind fun _ => Moves.pure _

theorem SearchRequest.moves_scope : Moves P readScope fun _ => Settled := by
  refine Moves.integer.bind fun n => ?_
  split
  · exact Moves.pure _
  · exact Moves.throw _

theorem SearchRequest.moves : Moves P SearchRequest.read fun _ => Settled :=
  Moves.sequence.bind fun _ => Moves.text.bind fun _ => moves_scope.bind fun _ => Moves.integer.bind fun _ =>
    Moves.integer.bind fun _ => Moves.integer.bind fun _ => Moves.boolean.bind fun _ =>
    (Filter.moves_levels _).bind fun _ => Moves.sequence.bind fun _ => (Moves.listOf Moves.text).bind fun _ =>
    Moves.skipRest.settled.bind fun _ => Moves.pure _

theorem ResultEntry.moves : Moves P ResultEntry.read fun _ => Settled :=
  Moves.sequence.bind fun _ => Moves.text.bind fun _ => Attribute.moves_list.bind fun _ =>
    Moves.skipRest.settled.bind fun _ => Moves.pure _

theorem Change.moves : Moves P Change.read fun _ => Settled := by
  refine Moves.sequence.bind fun bounds => Moves.bind (Q := fun _ => Settled) ?_ fun kind =>
    Attribute.moves.bind fun _ => Moves.skipRest.settled.bind fun _ => Moves.pure _
  refine Moves.integer.bind fun n => ?_
  split
  · exact Moves.pure _
  · exact Moves.throw _

theorem ModifyDnRequest.moves : Moves P ModifyDnRequest.read fun _ => Settled :=
  Moves.sequence.bind fun _ => Moves.text.bind fun _ => Moves.text.bind fun _ => Moves.boolean.bind fun _ =>
    (Moves.optional Moves.text).settled.bind fun _ => Moves.skipRest.bind fun _ => Moves.pure _

theorem BindResponse.moves : Moves P BindResponse.read fun _ => Settled :=
  Moves.sequence.bind fun _ => Result.moves.bind fun _ => (Moves.optional Moves.octets).bind fun _ =>
    Moves.skipRest.bind fun _ => Moves.pure _

theorem ExtendedRequest.moves : Moves P ExtendedRequest.read fun _ => Settled :=
  Moves.sequence.bind fun _ => Moves.text.bind fun _ => (Moves.optional Moves.octets).settled.bind fun _ =>
    Moves.skipRest.bind fun _ => Moves.pure _

theorem ExtendedResponse.moves : Moves P ExtendedResponse.read fun _ => Settled :=
  Moves.sequence.bind fun _ => Result.moves.bind fun _ => (Moves.optional Moves.text).bind fun _ =>
    (Moves.optional Moves.octets).bind fun _ => Moves.skipRest.bind fun _ => Moves.pure _

theorem IntermediateResponse.moves : Moves P IntermediateResponse.read fun _ => Settled :=
  Moves.sequence.bind fun _ => (Moves.optional Moves.text).settled.bind fun _ =>
    (Moves.optional Moves.octets).bind fun _ => Moves.skipRest.bind fun _ => Moves.pure _

/-! ### Operations -/

namespace Op

theorem moves_result : Moves P readResult fun _ => Settled :=
  Moves.sequence.bind fun _ => Result.moves.bind fun _ => Moves.skipRest.bind fun _ => Moves.pure _

theorem moves_add : Moves P readAdd fun _ => Settled :=
  Moves.sequence.bind fun _ => Moves.text.bind fun _ => Attribute.moves_list.bind fun _ =>
    Moves.skipRest.settled.bind fun _ => Moves.pure _

theorem moves_compare : Moves P readCompare fun _ => Settled :=
  Moves.sequence.bind fun _ => Moves.text.bind fun _ => Moves.sequence.bind fun _ => Moves.text.bind fun _ =>
    Moves.octets.bind fun _ => Moves.skipRest.settled.bind fun _ => Moves.skipRest.settled.bind fun _ =>
    Moves.pure _

theorem moves_modify : Moves P readModify fun _ => Settled :=
  Moves.sequence.bind fun _ => Moves.text.bind fun _ => Moves.sequence.bind fun _ =>
    (Moves.listOf Change.moves).bind fun _ => Moves.skipRest.settled.bind fun _ => Moves.pure _

theorem moves : Moves P Op.read fun _ => Settled := by
  refine (Moves.peekRequired "protocol op").bind fun tag => ?_
  split
  · exact Moves.map Moves.integer
  · exact moves_add
  · exact Moves.map moves_result
  · exact Moves.map BindRequest.moves
  · exact BindResponse.moves
  · exact moves_compare
  · exact Moves.map moves_result
  · exact Moves.map Moves.text
  · exact Moves.map moves_result
  · exact Moves.map ExtendedRequest.moves
  · exact Moves.map ExtendedResponse.moves
  · exact IntermediateResponse.moves
  · exact moves_modify
  · exact Moves.map moves_result
  · exact Moves.map ModifyDnRequest.moves
  · exact Moves.map moves_result
  · exact Moves.map SearchRequest.moves
  · exact Moves.map ResultEntry.moves
  · exact Moves.sequence.bind fun _ => Moves.map (Moves.listOf Moves.text)
  · exact Moves.map moves_result
  · exact Moves.null.bind fun _ => Moves.pure _
  · exact Moves.throw _

end Op

/-! ### Controls -/

namespace Control

theorem moves_component (c : Control) : Moves P (readComponent c) fun _ => Settled := by
  refine (Moves.peekRequired "control").bind fun tag => ?_
  split
  · exact Moves.map Moves.boolean
  split
  · exact Moves.map Moves.octets
  · exact Moves.throw _

theorem moves : Moves P Control.read fun _ => Settled :=
  Moves.sequence.bind fun _ => Moves.text.bind fun _ => (Moves.components moves_component _).settled

end Control

/-! ### Messages -/

namespace Message

theorem moves_controls : Moves Settled (readControls bounds) fun _ => Settled := by
  refine Moves.more.bind fun more => ?_
  split
  · refine (Moves.peekRequired "controls").bind fun tag => ?_
    split
    · exact Moves.sequence_listOf Control.moves
    · exact Moves.throw _
  · exact Moves.pure_of fun _ h => h.1

/-- A message ends where its sequence does. -/
theorem moves_body : Moves P (readBody bounds) fun _ r => Settled r ∧ r.consumed = bounds.stop := by
  unfold readBody
  dsimp only
  split
  · exact Moves.throw_bind _ _
  · refine Moves.integer.bind fun id => Op.moves.bind fun op => moves_controls.bind fun controls =>
      Moves.more.bind fun more => ?_
    split
    · exact Moves.throw_bind _ _
    · rename_i hmore
      refine Moves.pure_of fun r ⟨hs, hle, hm⟩ => ⟨hs, ?_⟩
      exact Nat.le_antisymm hle (Nat.not_lt.mp fun hlt => hmore (hm.mpr hlt))

theorem limit_setLimit_le (r : Reader) (limit : Nat) : (r.setLimit limit).limit ≤ Ber.maxLength := by
  rw [Reader.setLimit]
  dsimp only
  split <;> omega

/-- An accepted message takes the tag, the length and the declared number of bytes of its outermost
element off the stream, whatever is inside that element. The next read starts behind it. -/
theorem read_consumes_frame (r r' : Reader) (limit : Nat) (m : Message)
    (h : read.run (r.setLimit limit) = .ok (some m) r') : ∃ tag rest n header, r.pending = tag :: rest ∧
      Ber.Length.decode rest = .ok (n, header) ∧ header + n ≤ rest.length ∧
      r'.consumed = r.consumed + (1 + header + n) ∧ r'.lookahead = none ∧
      r'.pending = rest.drop (header + n) := by
  have ha : read.answer (r.setLimit limit) = .ok (some m, r') := by
    rw [ReadM.answer, h]
  rw [read_eq] at ha
  obtain ⟨tag?, s, htag, ha⟩ := ReadM.answer_bind_inv ha
  cases tag? with
  | none => cases ha
  | some tag =>
    obtain ⟨n, t, hn, ha⟩ := ReadM.answer_bind_inv ha
    obtain ⟨u, u', hu, ha⟩ := ReadM.answer_bind_inv ha
    cases hu
    obtain ⟨m', v, hm, ha⟩ := ReadM.answer_bind_inv ha
    cases ha
    obtain ⟨hp, hs⟩ := ReadM.passes_of_tag? htag
    obtain ⟨header, hp', ht, hdec⟩ := ReadM.passes_of_length hn hs (by
      rw [hp.limit]
      exact limit_setLimit_le r limit)
    obtain ⟨⟨body, hp''⟩, hv, hend⟩ := moves_body (P := fun _ => True) _ trivial _ _ hm
    have hbody : body.length = n := by
      have := hp''.consumed
      dsimp only at hend
      omega
    have hall := (hp.trans hp').trans hp''
    refine ⟨tag, header ++ (body ++ r'.pending), n, header.length, ?_, hdec _, ?_, ?_, hv, ?_⟩
    · exact hall.pending.trans (by simp)
    · simp only [List.length_append]
      omega
    · rw [hall.consumed]
      simp only [List.length_append, List.length_singleton, hbody]
      rfl
    · rw [← hbody, ← List.length_append, ← List.append_assoc, List.drop_left]

/-- The length of this message takes more bytes than it has to, and others follow it. -/
theorem read_consumes_frame_unbind :
    let r := Reader.ofBytes [0x30, 0x81, 0x05, 0x02, 0x01, 0x03, 0x42, 0x00, 0x30, 0x05]
    let r' : Reader := { source := some [.bytes [0x30, 0x05]], consumed := 8 }
    read.run (r.setLimit 0) = .ok (some ⟨3, .unbindRequest, []⟩) r' ∧
      ∃ tag rest n header, r.pending = tag :: rest ∧ Ber.Length.decode rest = .ok (n, header) ∧
        header + n ≤ rest.length ∧ r'.consumed = r.consumed + (1 + header + n) ∧ r'.lookahead = none ∧
        r'.pending = rest.drop (header + n) :=
  ⟨rfl, read_consumes_frame _ _ 0 _ rfl⟩

end Message

end Ldap
