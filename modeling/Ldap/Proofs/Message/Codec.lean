import Ldap.Message.Codec
import Ldap.Proofs.Filter.Codec

/-! Reading the messages that were written: each reader reads the items of its writer. An optional
component that is told by its tag may be looked for at the end of a stream that was cut; what is read
behind it then notices the cut. -/

namespace Ldap

open Ber (Item ReadM Reader Reads Starves Takes Bounds)

variable {limit stop : Nat}

/-! ### Parts of operations -/

theorem Result.reads_bind {β : Type} {bounds : Bounds} {f : Result → ReadM β} {r : Result} {rest : List Item}
    {b : β} (hb : bounds.stop = stop) (hne : ∀ item ∈ rest.head?, item.tag ≠ referralTag)
    (hf : Reads limit stop (f r) rest b) (hs : ∀ r, Starves stop (f r)) :
    Reads limit stop (readComponents bounds >>= f) (r.components ++ rest) b := by
  obtain ⟨⟨code⟩, matchedDn, message, referrals⟩ := r
  simp only [readComponents, bind_assoc]
  refine Reads.bind_cons (fun _ => Reads.integer _ code) ?_
  refine Reads.bind_cons (fun _ => Reads.text _ matchedDn) ?_
  refine Reads.bind_cons (fun _ => Reads.text _ message) ?_
  refine Reads.tagWithin_bind hb ?_ ?_
  · cases referrals with
    | nil =>
      change Reads limit stop ((if rest.head?.map Item.tag = some referralTag then _ else _) >>= f) rest b
      rw [if_neg (Reads.head_tag_ne hne)]
      exact hf
    | cons uri uris =>
      rw [List.isEmpty_cons, if_neg Bool.false_ne_true]
      refine Reads.bind_cons (fun s => ?_) hf
      exact Reads.sequence_listOf_bind (fun uri _ _ => Reads.text _ uri) (Reads.pure _)
  · rw [if_neg (by simp)]
    exact hs _

theorem Attribute.reads (a : Attribute) : Reads limit stop Attribute.read [a.toItem] a := by
  rw [Attribute.toItem]
  refine Reads.sequence_bind fun s hs => ?_
  refine Reads.bind_cons (fun _ => Reads.text _ a.name) ?_
  refine Reads.sequence_listOf_bind (fun value _ _ => Reads.octets _ value) ?_
  exact Reads.skipRest_bind hs (Reads.pure a)

theorem Attribute.reads_list (attributes : List Attribute) :
    Reads limit stop Attribute.readList [Attribute.listItem attributes] attributes :=
  Reads.sequence_listOf fun a _ _ => a.reads

theorem BindRequest.reads_sasl (mechanism : String) (credentials : Option (List UInt8)) :
    Reads limit stop readSasl [.constructed saslTag (.ofText mechanism :: (credentials.map Item.ofBytes).toList)]
      (.sasl mechanism credentials) := by
  refine Reads.sequence_bind fun s hs => ?_
  refine Reads.bind_cons (fun _ => Reads.text _ mechanism) ?_
  refine Reads.more_bind (credentials.map Item.ofBytes).toList _ hs ?_
  cases credentials with
  | none => exact Reads.skipRest_bind hs (Reads.pure _)
  | some credentials =>
    refine Reads.bind_cons (fun _ => Reads.map (Reads.octets _ credentials)) ?_
    exact Reads.skipRest_bind hs (Reads.pure _)

theorem BindRequest.reads (r : BindRequest) (tag : UInt8) :
    Reads limit stop BindRequest.read [.constructed tag r.components] r := by
  obtain ⟨version, name, credentials⟩ := r
  refine Reads.sequence_bind fun s hs => ?_
  refine Reads.bind_cons (fun _ => Reads.integer _ version) ?_
  refine Reads.bind_cons (fun _ => Reads.text _ name) ?_
  refine Reads.bind_cons (a := credentials) (fun t => ?_) (Reads.skipRest_bind hs (Reads.pure _))
  have hs : Starves t (do return Credentials.simple (← ReadM.octets)) := Starves.header_bind.bind
  cases credentials with
  | simple password =>
    refine Reads.peek_bind ?_ hs
    exact Reads.map (Reads.octets _ password)
  | sasl mechanism credentials =>
    refine Reads.peek_bind ?_ hs
    exact reads_sasl mechanism credentials

theorem SearchRequest.reads_scope (scope : Scope) :
    Reads limit stop readScope [.enumerated scope.code] scope := by
  refine Reads.bind_cons (fun _ => Reads.integer _ scope.code) ?_
  cases scope <;> exact Reads.pure _

theorem Change.reads_kind (kind : ChangeKind) : Reads limit stop readKind [.enumerated kind.code] kind := by
  refine Reads.bind_cons (fun _ => Reads.integer _ kind.code) ?_
  cases kind <;> exact Reads.pure _

theorem Change.reads (c : Change) : Reads limit stop Change.read [c.toItem] c := by
  refine Reads.sequence_bind fun s hs => ?_
  refine Reads.bind_cons (fun _ => reads_kind c.kind) ?_
  refine Reads.bind_cons (fun _ => c.target.reads) ?_
  exact Reads.skipRest_bind hs (Reads.pure c)

/-! ### Requests -/

theorem SearchRequest.reads (r : SearchRequest) (tag : UInt8) (hd : r.filter.depth ≤ Filter.maxDepth)
    (ht : r.filter.targeted) : Reads limit stop SearchRequest.read [.constructed tag r.components] r := by
  refine Reads.sequence_bind fun s hs => ?_
  refine Reads.bind_cons (fun _ => Reads.text _ r.base) ?_
  refine Reads.bind_cons (fun _ => reads_scope r.scope) ?_
  refine Reads.bind_cons (fun _ => Reads.integer _ r.derefAliases) ?_
  refine Reads.bind_cons (fun _ => Reads.integer _ r.sizeLimit) ?_
  refine Reads.bind_cons (fun _ => Reads.integer _ r.timeLimit) ?_
  refine Reads.bind_cons (fun _ => Reads.boolean _ r.typesOnly) ?_
  refine Reads.bind_cons (Filter.reads_levels _ r.filter (Nat.lt_succ_of_le hd) ht) ?_
  refine Reads.sequence_listOf_bind (fun name _ _ => Reads.text _ name) ?_
  exact Reads.skipRest_bind hs (Reads.pure r)

theorem ModifyDnRequest.reads (r : ModifyDnRequest) (tag : UInt8) :
    Reads limit stop ModifyDnRequest.read [.constructed tag r.components] r := by
  refine Reads.sequence_bind fun s hs => ?_
  refine Reads.bind_cons (fun _ => Reads.text _ r.dn) ?_
  refine Reads.bind_cons (fun _ => Reads.text _ r.newRdn) ?_
  refine Reads.bind_cons (fun _ => Reads.boolean _ r.deleteOldRdn) ?_
  exact Reads.optional_bind hs (fun rdn _ => Reads.text _ rdn) (fun _ => rfl) (by simp)
    (Reads.skipRest_bind hs (Reads.pure r)) (Starves.skipRest hs).bind

theorem ExtendedRequest.reads (r : ExtendedRequest) (tag : UInt8) :
    Reads limit stop ExtendedRequest.read [.constructed tag r.components] r := by
  refine Reads.sequence_bind fun s hs => ?_
  refine Reads.bind_cons (fun _ => Reads.text _ r.oid) ?_
  exact Reads.optional_bind hs (fun value _ => Reads.octets _ value) (fun _ => rfl) (by simp)
    (Reads.skipRest_bind hs (Reads.pure r)) (Starves.skipRest hs).bind

namespace Op

theorem reads_add (tag : UInt8) (dn : String) (attributes : List Attribute) :
    Reads limit stop readAdd [.constructed tag [.ofText dn, Attribute.listItem attributes]]
      (.addRequest dn attributes) := by
  refine Reads.sequence_bind fun s hs => ?_
  refine Reads.bind_cons (fun _ => Reads.text _ dn) ?_
  refine Reads.bind_cons (fun _ => Attribute.reads_list attributes) ?_
  exact Reads.skipRest_bind hs (Reads.pure _)

theorem reads_compare (tag : UInt8) (dn name : String) (value : List UInt8) :
    Reads limit stop readCompare
      [.constructed tag [.ofText dn, .sequence [.ofText name, .ofBytes value]]]
      (.compareRequest dn name value) := by
  refine Reads.sequence_bind fun s hs => ?_
  refine Reads.bind_cons (fun _ => Reads.text _ dn) ?_
  refine Reads.sequence_bind fun t ht => ?_
  refine Reads.bind_cons (fun _ => Reads.text _ name) ?_
  refine Reads.bind_cons (fun _ => Reads.octets _ value) ?_
  exact Reads.skipRest_bind ht (Reads.skipRest_bind hs (Reads.pure _))

theorem reads_modify (tag : UInt8) (dn : String) (changes : List Change) :
    Reads limit stop readModify [.constructed tag [.ofText dn, .sequence (changes.map Change.toItem)]]
      (.modifyRequest dn changes) := by
  refine Reads.sequence_bind fun s hs => ?_
  refine Reads.bind_cons (fun _ => Reads.text _ dn) ?_
  refine Reads.sequence_listOf_bind (fun c _ _ => c.reads) ?_
  exact Reads.skipRest_bind hs (Reads.pure _)

end Op

/-! ### Responses -/

theorem ResultEntry.reads (e : ResultEntry) (tag : UInt8) :
    Reads limit stop ResultEntry.read [.constructed tag e.components] e := by
  refine Reads.sequence_bind fun s hs => ?_
  refine Reads.bind_cons (fun _ => Reads.text _ e.dn) ?_
  refine Reads.bind_cons (fun _ => Attribute.reads_list e.attributes) ?_
  exact Reads.skipRest_bind hs (Reads.pure e)

theorem Op.reads_result (result : Result) (tag : UInt8) :
    Reads limit stop readResult [.constructed tag result.components] result :=
  Reads.sequence_bind fun _ hs => Result.reads_bind hs (by simp) (Reads.skipRest_bind hs (Reads.pure _))
    fun _ => (Starves.skipRest hs).bind

theorem BindResponse.reads (result : Result) (serverCredentials : Option (List UInt8)) (tag : UInt8) :
    Reads limit stop BindResponse.read [.constructed tag (BindResponse.components result serverCredentials)]
      (.bindResponse result serverCredentials) := by
  refine Reads.sequence_bind fun s hs => ?_
  rw [BindResponse.components, List.append_assoc]
  refine Result.reads_bind hs ?_ ?_ fun result => ?_
  · cases serverCredentials <;> simp [Item.tag, serverCredentialsTag, Result.referralTag]
  · exact Reads.optional_bind hs (fun value _ => Reads.octets _ value) (fun _ => rfl) (by simp)
      (Reads.skipRest_bind hs (Reads.pure _)) (Starves.skipRest hs).bind
  · exact Starves.optional_bind hs (Starves.skipRest hs).bind

theorem ExtendedResponse.reads (r : ExtendedResponse) (tag : UInt8) :
    Reads limit stop ExtendedResponse.read [.constructed tag r.components] r := by
  obtain ⟨result, oid, value⟩ := r
  refine Reads.sequence_bind fun s hs => ?_
  simp only [ExtendedResponse.components, List.append_assoc]
  refine Result.reads_bind hs ?_ ?_ fun result => ?_
  · cases oid <;> cases value <;> simp [Item.tag, oidTag, valueTag, Result.referralTag]
  · refine Reads.optional_bind hs (fun oid _ => Reads.text _ oid) (fun _ => rfl) ?_ ?_ ?_
    · cases value <;> simp [Item.tag, oidTag, valueTag]
    · exact Reads.optional_bind hs (fun value _ => Reads.octets _ value) (fun _ => rfl) (by simp)
        (Reads.skipRest_bind hs (Reads.pure _)) (Starves.skipRest hs).bind
    · exact Starves.optional_bind hs (Starves.skipRest hs).bind
  · exact Starves.optional_bind hs (Starves.optional_bind hs (Starves.skipRest hs).bind)

theorem IntermediateResponse.reads (oid : Option String) (value : Option (List UInt8)) (tag : UInt8) :
    Reads limit stop IntermediateResponse.read
      [.constructed tag (IntermediateResponse.components oid value)] (.intermediateResponse oid value) := by
  refine Reads.sequence_bind fun s hs => ?_
  rw [IntermediateResponse.components, List.append_assoc]
  refine Reads.optional_bind hs (fun oid _ => Reads.text _ oid) (fun _ => rfl) ?_ ?_ ?_
  · cases value <;> simp [Item.tag, oidTag, valueTag]
  · exact Reads.optional_bind hs (fun value _ => Reads.octets _ value) (fun _ => rfl) (by simp)
      (Reads.skipRest_bind hs (Reads.pure _)) (Starves.skipRest hs).bind
  · exact Starves.optional_bind hs (Starves.skipRest hs).bind

/-! ### Operations -/

namespace Op

/-- The filter of a search, if there is one, can be read back. -/
def Readable : Op → Prop
  | .searchRequest request => request.filter.depth ≤ Filter.maxDepth ∧ request.filter.targeted
  | _ => True

theorem reads (op : Op) (h : op.Readable) : Reads limit stop Op.read [op.toItem] op := by
  refine Reads.peekRequired_bind ?_
  cases op with
  | abandonRequest id => exact Reads.map (Reads.integer _ id)
  | addRequest dn attributes => exact reads_add _ dn attributes
  | bindRequest request => exact Reads.map (request.reads _)
  | bindResponse result serverCredentials => exact BindResponse.reads result serverCredentials _
  | compareRequest dn name value => exact reads_compare _ dn name value
  | deleteRequest dn => exact Reads.map (Reads.text _ dn)
  | extendedRequest request => exact Reads.map (request.reads _)
  | extendedResponse response => exact Reads.map (response.reads _)
  | intermediateResponse oid value => exact IntermediateResponse.reads oid value _
  | modifyRequest dn changes => exact reads_modify _ dn changes
  | modifyDnRequest request => exact Reads.map (request.reads _)
  | searchRequest request => exact Reads.map (request.reads _ h.1 h.2)
  | searchResultEntry entry => exact Reads.map (entry.reads _)
  | searchResultReference uris =>
    exact Reads.sequence_listOf_bind (fun uri _ _ => Reads.text _ uri) (Reads.pure _)
  | addResponse result => exact Reads.map (reads_result result _)
  | compareResponse result => exact Reads.map (reads_result result _)
  | deleteResponse result => exact Reads.map (reads_result result _)
  | modifyResponse result => exact Reads.map (reads_result result _)
  | modifyDnResponse result => exact Reads.map (reads_result result _)
  | searchResultDone result => exact Reads.map (reads_result result _)
  | unbindRequest => exact Reads.bind_cons (fun _ => Reads.null _) (Reads.pure _)

end Op

/-! ### Controls -/

namespace Control

/-- The components behind the object identifier, in the order in which they are written. -/
theorem folds (oid : String) (critical : Bool) (value : Option (List UInt8)) :
    Reads.Folds limit readComponent ⟨oid, false, none⟩
      ((if critical then [.ofBool true] else []) ++ (value.map Item.ofBytes).toList)
      ⟨oid, critical, value⟩ := by
  have h1 : Reads.Folds limit readComponent ⟨oid, false, none⟩ (if critical then [.ofBool true] else [])
      ⟨oid, critical, none⟩ := by
    cases critical with
    | false => exact .nil _
    | true => exact .cons (fun _ => Reads.peekRequired_bind (Reads.map (Reads.boolean _ true))) (.nil _)
  have h2 : Reads.Folds limit readComponent ⟨oid, critical, none⟩ (value.map Item.ofBytes).toList
      ⟨oid, critical, value⟩ := by
    cases value with
    | none => exact .nil _
    | some value => exact .cons (fun _ => Reads.peekRequired_bind (Reads.map (Reads.octets _ value))) (.nil _)
  exact h1.append h2

theorem reads (c : Control) : Reads limit stop Control.read [c.toItem] c := by
  refine Reads.sequence_bind fun s hs => ?_
  rw [List.append_nil]
  refine Reads.bind_cons (fun _ => Reads.text _ c.oid) ?_
  refine Reads.components hs ?_ (folds c.oid c.critical c.value)
  rw [Item.cellsAll, List.length_append]
  exact Nat.le_add_left _ _

end Control

/-! ### Messages -/

namespace Message

/-- The items inside the sequence of a message. -/
def components (m : Message) : List Item :=
  [.ofInt32 m.id, m.op.toItem] ++ if m.controls.isEmpty then []
    else [.constructed controlsTag (m.controls.map Control.toItem)]

theorem value_toItem (m : Message) : m.toItem.value = Item.encodeAll m.components := rfl

theorem cells_toItem (m : Message) :
    m.toItem.cells = Item.frame Ber.sequenceTag (Item.cellsAll m.components) := by
  rw [toItem, Item.sequence, Item.cells, components]

theorem reads_controls {bounds : Bounds} (hb : bounds.stop = stop) (controls : List Control) :
    Reads limit stop (readControls bounds) (if controls.isEmpty then []
      else [.constructed controlsTag (controls.map Control.toItem)]) controls := by
  cases controls with
  | nil => exact Reads.more_done hb (Reads.pure _)
  | cons c controls =>
    refine Reads.more_all hb (Reads.peekRequired_bind ?_)
    exact Reads.sequence_listOf fun c _ _ => c.reads

theorem reads_body (m : Message) (h : m.op.Readable) (n : Nat) :
    Reads limit stop (readBody ⟨Ber.sequenceTag, n, stop⟩) m.components m := by
  rw [readBody, if_neg (fun h => h rfl)]
  refine Reads.bind_cons (fun _ => Reads.integer _ m.id) ?_
  refine Reads.bind_cons (fun _ => m.op.reads h) ?_
  rw [← List.append_nil (List.append _ _)]
  refine Reads.bind (fun s hs => reads_controls hs.symm m.controls) ?_
  exact Reads.more_done rfl (Reads.pure m)

/-- The length and the components of a message, behind its tag. -/
theorem takes_rest {m : Message} (h : m.op.Readable) (hl : m.toItem.value.length ≤ min limit Ber.maxLength) :
    Takes limit stop (do
        let n ← ReadM.length
        let r ← get
        return some (← readBody ⟨Ber.sequenceTag, n, r.consumed + n⟩))
      (Ber.Cell.later (Ber.Length.encode (Item.cellsAll m.components).length) ++ Item.cellsAll m.components)
      (some m) := by
  rw [value_toItem, ← Item.length_cellsAll] at hl
  refine Takes.bind (fun _ _ => Takes.length (Ber.Length.declares_encode (by omega)) (by omega))
    (Takes.get_bind fun r hr => ?_)
  rw [hr.stop_eq]
  exact Reads.map (reads_body m h _) hl

theorem read_eq : read = ReadM.tag? >>= fun tag? => match tag? with
    | none => pure none
    | some tag => do
      let n ← ReadM.length
      let r ← get
      return some (← readBody ⟨tag, n, r.consumed + n⟩) := by
  rw [read, ReadM.sequence?, bind_assoc]
  refine congrArg _ (funext fun tag? => ?_)
  cases tag? with
  | none => rfl
  | some tag => simp only [bind_assoc, pure_bind]

/-- On a reader that stands before a message, reading takes its cells and answers the message, unless
the input ends before the first of them. -/
theorem answer_read {m : Message} (h : m.op.Readable) {r : Reader} (hr : r.Before stop m.toItem.cells)
    (hl : m.toItem.value.length ≤ min r.limit Ber.maxLength) : read.answer r = match r.fetch true with
      | .error (.truncated _) => .ok (none, r.close)
      | _ => (r.draw m.toItem.cells).map (some m, ·) := by
  rw [cells_toItem, Item.frame] at hr ⊢
  have htag := ReadM.answer_tag? r
  rw [read_eq]
  cases hf : r.fetch true with
  | error e =>
    rw [hf] at htag
    rw [Reader.draw_of_fetch_error hf]
    cases e with
    | truncated part => exact ReadM.answer_bind_ok htag
    | _ => exact ReadM.answer_bind_error htag
  | ok x =>
    obtain ⟨tag, r'⟩ := x
    obtain ⟨rfl, hr', -, hlim⟩ := hr.fetch_eq hf
    rw [hf] at htag
    rw [ReadM.answer_bind_ok htag, Reader.draw_of_fetch hf]
    exact takes_rest h hl r' hr' hlim

end Message

end Ldap
