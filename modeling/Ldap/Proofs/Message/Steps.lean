import Ldap.Message.Codec
import Ldap.Proofs.Ber.Compositional

/-! Reading a message is done by steps on elements alone. What single reads have in common, and what is kept when
one step follows another, is true of reading whole messages. Few parts of a message are read by steps that accept
the end of the input: credentials, whose tag is looked at first, and components that may be left out. What is read
behind these notices the end. -/

namespace Ldap.Ber

/-! ### Parts that must be there -/

namespace Demanding

variable {P : (α : Type) → ReadM α → Prop} (h : Demanding P) {bounds : Bounds}
include h

theorem substring (parts : Filter.Parts) : P _ parts.read := by
  refine h.bind (h.peekRequired _) fun tag => h.bind h.octets fun value => h.lift fun error he => ?_
  unfold Filter.Parts.add at he
  split at he
  · cases he
  split at he
  · cases he
  split at he
  · cases he
  · cases he
    rfl

theorem extensiblePart (m : Filter.Match) : P _ m.read := by
  refine h.bind (h.peekRequired _) fun tag => ?_
  split
  · exact h.map h.text
  split
  · exact h.map h.text
  split
  · exact h.map h.octets
  split
  · exact h.map h.boolean
  · exact h.throw rfl

theorem extensible : P _ Filter.readExtensible := by
  refine h.bind h.sequence fun _ => h.bind (h.components h.extensiblePart {}) fun m => h.lift fun error he => ?_
  unfold Filter.Match.toFilter at he
  split at he
  · cases he
    rfl
  split at he
  · cases he
    rfl
  · cases he

theorem filterLeaf (tag : UInt8) : P _ (Filter.readLeaf tag) := by
  unfold Filter.readLeaf
  split
  · exact h.bind h.sequence fun _ => h.bind h.text fun _ => h.map h.octets
  split
  · exact h.bind h.sequence fun _ => h.bind h.text fun _ => h.bind h.sequence fun _ =>
      h.map (h.components h.substring {})
  split
  · exact h.map h.text
  split
  · exact h.extensible
  · exact h.throw rfl

theorem filter (levels : Nat) : P _ (Filter.readLevels levels) := by
  induction levels with
  | zero => exact h.throw rfl
  | succ levels ih =>
    refine h.bind (h.peekRequired _) fun tag => ?_
    split
    · exact h.bind h.sequence fun _ => h.map (h.listOf ih)
    split
    · exact h.bind h.sequence fun _ => h.map (h.listOf ih)
    split
    · refine h.bind h.sequence fun _ => h.bind ih fun f => h.bind h.more fun more => ?_
      split
      · exact h.throw_bind _ rfl
      · exact h.pure _
    · exact h.filterLeaf tag

theorem singleAttribute : P _ Attribute.read :=
  h.bind h.sequence fun _ => h.bind h.text fun _ => h.bind h.sequence fun _ =>
    h.bind (h.listOf h.octets) fun _ => h.skipRest_pure _

theorem attributes : P _ Attribute.readList := h.sequence_listOf h.singleAttribute

theorem scope : P _ SearchRequest.readScope := by
  refine h.bind h.integer fun n => ?_
  split
  · exact h.pure _
  · exact h.throw rfl

theorem searchRequest : P _ SearchRequest.read :=
  h.bind h.sequence fun _ => h.bind h.text fun _ => h.bind h.scope fun _ => h.bind h.integer fun _ =>
    h.bind h.integer fun _ => h.bind h.integer fun _ => h.bind h.boolean fun _ => h.bind (h.filter _) fun _ =>
    h.bind h.sequence fun _ => h.bind (h.listOf h.text) fun _ => h.skipRest_pure _

theorem resultEntry : P _ ResultEntry.read :=
  h.bind h.sequence fun _ => h.bind h.text fun _ => h.bind h.attributes fun _ => h.skipRest_pure _

theorem changeKind : P _ Change.readKind := by
  refine h.bind h.integer fun n => ?_
  split
  · exact h.pure _
  · exact h.throw rfl

theorem change : P _ Change.read :=
  h.bind h.sequence fun _ => h.bind h.changeKind fun _ => h.bind h.singleAttribute fun _ => h.skipRest_pure _

theorem addRequest : P _ Op.readAdd :=
  h.bind h.sequence fun _ => h.bind h.text fun _ => h.bind h.attributes fun _ => h.skipRest_pure _

theorem compareRequest : P _ Op.readCompare :=
  h.bind h.sequence fun _ => h.bind h.text fun _ => h.bind h.sequence fun _ => h.bind h.text fun _ =>
    h.bind h.octets fun _ => h.bind h.skipRest fun _ => h.skipRest_pure _

theorem modifyRequest : P _ Op.readModify :=
  h.bind h.sequence fun _ => h.bind h.text fun _ => h.bind h.sequence fun _ => h.bind (h.listOf h.change) fun _ =>
    h.skipRest_pure _

theorem controlPart (c : Control) : P _ (Control.readComponent c) := by
  refine h.bind (h.peekRequired _) fun tag => ?_
  split
  · exact h.map h.boolean
  split
  · exact h.map h.octets
  · exact h.throw rfl

theorem control : P _ Control.read :=
  h.bind h.sequence fun _ => h.bind h.text fun _ => h.components h.controlPart _

theorem controls : P _ (Message.readControls bounds) := by
  refine h.bind h.more fun more => ?_
  split
  · refine h.bind (h.peekRequired _) fun tag => ?_
    split
    · exact h.sequence_listOf h.control
    · exact h.throw rfl
  · exact h.pure _

end Demanding

/-! ### Parts that may be missing -/

namespace Watchful

variable {P : (α : Type) → ReadM α → Prop} (h : Watchful P) {β : Type} {bounds : Bounds}
include h

theorem result_bind {f : Result → ReadM β} (hf : ∀ r, P _ (f r)) (hs : ∀ r, Starves bounds.stop (f r)) :
    P _ (Result.readComponents bounds >>= f) := by
  simp only [Result.readComponents, bind_assoc]
  refine h.bind h.integer fun code => h.bind h.text fun matchedDn => h.bind h.text fun message =>
    h.tagWithin_bind (fun tag? => ?_) ?_
  · split
    · exact h.bind (h.bind h.sequence fun _ => h.map (h.listOf h.text)) hf
    · exact h.bind (h.pure _) hf
  · rw [if_neg (by simp)]
    exact hs _

theorem credentials : P _ BindRequest.readCredentials := by
  refine h.peek_bind (fun tag? => ?_) fun stop => Starves.header_bind.bind
  split
  · refine h.bind h.sequence fun _ => h.bind h.text fun mechanism => h.bind h.more fun more => ?_
    dsimp only
    split
    · exact h.bind (h.map h.octets) fun _ => h.skipRest_pure _
    · exact h.bind (h.pure none) fun _ => h.skipRest_pure _
  · exact h.map h.octets

theorem bindRequest : P _ BindRequest.read :=
  h.bind h.sequence fun _ => h.bind h.integer fun _ => h.bind h.text fun _ => h.bind h.credentials fun _ =>
    h.skipRest_pure _

theorem bindResponse : P _ BindResponse.read :=
  h.bind h.sequence fun _ => h.result_bind
    (fun _ => h.optional_bind h.octets (fun _ => h.skipRest_pure _) (Starves.skipRest rfl).bind)
    fun _ => Starves.optional_bind rfl (Starves.skipRest rfl).bind

theorem extendedRequest : P _ ExtendedRequest.read :=
  h.bind h.sequence fun _ => h.bind h.text fun _ =>
    h.optional_bind h.octets (fun _ => h.skipRest_pure _) (Starves.skipRest rfl).bind

theorem extendedResponse : P _ ExtendedResponse.read :=
  h.bind h.sequence fun _ => h.result_bind
    (fun _ => h.optional_bind h.text
      (fun _ => h.optional_bind h.octets (fun _ => h.skipRest_pure _) (Starves.skipRest rfl).bind)
      (Starves.optional_bind rfl (Starves.skipRest rfl).bind))
    fun _ => Starves.optional_bind rfl (Starves.optional_bind rfl (Starves.skipRest rfl).bind)

theorem intermediateResponse : P _ IntermediateResponse.read :=
  h.bind h.sequence fun _ => h.optional_bind h.text
    (fun _ => h.optional_bind h.octets (fun _ => h.skipRest_pure _) (Starves.skipRest rfl).bind)
    (Starves.optional_bind rfl (Starves.skipRest rfl).bind)

theorem modifyDnRequest : P _ ModifyDnRequest.read :=
  h.bind h.sequence fun _ => h.bind h.text fun _ => h.bind h.text fun _ => h.bind h.boolean fun _ =>
    h.optional_bind h.text (fun _ => h.skipRest_pure _) (Starves.skipRest rfl).bind

theorem resultOnly : P _ Op.readResult :=
  h.bind h.sequence fun _ => h.result_bind (fun _ => h.skipRest_pure _) fun _ => (Starves.skipRest rfl).bind

/-! ### Messages -/

theorem op : P _ Op.read := by
  refine h.bind (h.peekRequired _) fun tag => ?_
  split
  · exact h.map h.integer
  · exact h.addRequest
  · exact h.map h.resultOnly
  · exact h.map h.bindRequest
  · exact h.bindResponse
  · exact h.compareRequest
  · exact h.map h.resultOnly
  · exact h.map h.text
  · exact h.map h.resultOnly
  · exact h.map h.extendedRequest
  · exact h.map h.extendedResponse
  · exact h.intermediateResponse
  · exact h.modifyRequest
  · exact h.map h.resultOnly
  · exact h.map h.modifyDnRequest
  · exact h.map h.resultOnly
  · exact h.map h.searchRequest
  · exact h.map h.resultEntry
  · exact h.bind h.sequence fun _ => h.map (h.listOf h.text)
  · exact h.map h.resultOnly
  · exact h.map h.null
  · exact h.throw rfl

theorem messageBody : P _ (Message.readBody bounds) := by
  unfold Message.readBody
  dsimp only
  split
  · exact h.throw_bind _ rfl
  · refine h.bind h.integer fun id => h.bind h.op fun op => h.bind h.controls fun controls =>
      h.bind h.more fun more => ?_
    split
    · exact h.throw_bind _ rfl
    · exact h.pure _

end Watchful

/-- What all steps have in common is true of reading a message. -/
theorem Compositional.message {P : (α : Type) → ReadM α → Prop} (h : Compositional P) : P _ Message.read := by
  refine h.bind h.sequence? fun bounds? => ?_
  split
  · exact h.pure _
  · exact h.map h.watchful.messageBody

end Ldap.Ber
