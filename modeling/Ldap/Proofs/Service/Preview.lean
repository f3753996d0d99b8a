import Ldap.Proofs.Control.Admission
import Ldap.Proofs.Directory.Preview
import Ldap.Service.Handle

/-! Previews of updates. With the control for it, an update is answered as it would be without, but for the code of
success, and the directory stays as it is. This holds as long as the update itself comes to an end: a renaming breaks
off at an entry that is kept below the renamed one and yet has fewer relative names. Whatever the request, the
directory changes only if the answer is success. -/

namespace Ldap

/-- The requests that add, delete, modify or rename entries. -/
def Op.IsUpdate : Op → Prop
  | .addRequest .. | .deleteRequest _ | .modifyRequest .. | .modifyDnRequest _ => True
  | _ => False

theorem Op.IsUpdate.operation {op : Op} (h : op.IsUpdate) :
    ∃ operation, op.operation? = some operation ∧ operation ∈ ControlKind.noOp.operations := by
  cases op <;> first | exact ⟨_, rfl, by decide⟩ | exact h.elim

namespace Message

/-- No control of the message asks for a preview. -/
def Unmarked (m : Message) : Prop := ∀ c ∈ m.controls, c.oid ≠ ControlKind.noOp.oid

/-- The result code of a response. -/
def code? (m : Message) : Option ResultCode := m.op.result?.map (·.code)

/-- The message with a control behind the others that asks for a preview. -/
def withNoOp (m : Message) (critical : Bool) : Message := { m with controls := m.controls ++ [.noOp critical] }

end Message

theorem AdmissionError.code_ne (e : AdmissionError) : e.code ≠ .success ∧ e.code ≠ .noOperation := by
  cases e <;> simp only [code] <;> decide

/-- No failure is reported as a success, or as a preview of one. -/
theorem Failure.code_ne (f : Failure) : f.code ≠ .success ∧ f.code ≠ .noOperation := by
  cases f with
  | admission cause => exact cause.code_ne
  | _ => simp only [code]; decide

/-! ### Updates -/

namespace Service

/-- The result of an update that was only previewed. -/
def previewed : Result :=
  { code := .noOperation, message := "the operation would have succeeded but was not applied" }

/-- A response whose result is the given one. -/
def Responds (respond : Result → Op) : Prop := ∀ r, (respond r).result? = some r

/-- What an update leads to, and what its preview does. The update may break off just if `breaks`. -/
inductive Foretold (d : Directory) (breaks : Prop) :
    (real preview : Except Failure (Option Reply × Directory)) → Prop
  | failed (f : Failure) : Foretold d breaks (.error f) (.error f)
  | done (respond : Result → Op) (hr : Responds respond) (controls : List Control) (after : Directory)
      (h : ¬ breaks) : Foretold d breaks (.ok (some ⟨respond .success, controls⟩, after))
        (.ok (some ⟨respond previewed, controls⟩, d))
  | brokenOff (respond : Result → Op) (hr : Responds respond) (controls : List Control) (after : Directory)
      (h : breaks) : Foretold d breaks (.ok (none, after)) (.ok (some ⟨respond previewed, controls⟩, d))

variable {s : Service} {c : Connection} {d : Directory} {a b : Admitted} {critical : Bool} {dn : String}
  {breaks : Prop} {real preview : Except Failure (Option Reply × Directory)}

theorem Foretold.bind {α : Type} (x : Except Failure α) {f g : α → Except Failure (Option Reply × Directory)}
    (h : ∀ y, Foretold d breaks (f y) (g y)) : Foretold d breaks (x >>= f) (x >>= g) := by
  cases x with
  | error e => exact .failed e
  | ok y => exact h y

/-- An update of the directory that its own preview foretells is foretold by that of the service. -/
theorem Foretold.of_noOp {α : Type} {update : Bool → Except Failure (α × Directory)}
    (hu : update true = (update false).map fun r => (r.1, d)) {respond : Result → Op} (hr : Responds respond)
    (controls : α → List Control) :
    Foretold d False (do let (y, d) ← update false; return (some ⟨respond .success, controls y⟩, d))
      (do let (y, d) ← update true; return (some ⟨respond previewed, controls y⟩, d)) := by
  rw [hu]
  cases update false with
  | error f => exact .failed f
  | ok r => exact .done respond hr (controls r.1) r.2 not_false

theorem updateResult_real (ha : a.contains .noOp = false) : updateResult a = .success := by
  simp [updateResult, ha]

theorem updateResult_preview (hb : b.contains .noOp = true) : updateResult b = previewed := by
  simp [updateResult, hb, previewed]

section Updates

variable (h : a.Agree b) (ha : a.contains .noOp = false) (hb : b.contains .noOp = true)
include h

theorem checkAssertion_agree : checkAssertion b = checkAssertion a := by
  funext e
  rw [checkAssertion, checkAssertion, h.assertion?]

theorem preRead_agree : preRead b = preRead a := by
  funext e
  rw [preRead, preRead, h.preRead?]

theorem postRead_agree : postRead b = postRead a := by
  funext e
  rw [postRead, postRead, h.postRead?]

theorem checkProxied_agree : checkProxied d b = checkProxied d a := by
  rw [checkProxied, checkProxied, h .proxiedAuthorizationV1 (by decide), h .proxiedAuthorizationV2 (by decide)]

include ha hb

theorem add_foretold (attributes : List Attribute) :
    Foretold d False (perform.replied <$> add d dn attributes a) (perform.replied <$> add d dn attributes b) := by
  simp only [add, map_bind, ha, hb, updateResult_real ha, updateResult_preview hb, checkAssertion_agree h,
    postRead_agree h]
  exact .bind _ fun _ => .of_noOp (Directory.add_noOp _) (fun _ => rfl) _

theorem delete_foretold :
    Foretold d False (perform.replied <$> delete d dn a) (perform.replied <$> delete d dn b) := by
  have hsubtree : a.contains .subtreeDelete = b.contains .subtreeDelete := h.contains (by decide)
  simp only [delete, map_bind, ha, hb, updateResult_real ha, updateResult_preview hb, checkAssertion_agree h,
    preRead_agree h, ← hsubtree]
  exact .bind _ fun _ => .bind _ fun _ => .of_noOp (Directory.delete_noOp _) (fun _ => rfl) _

theorem modify_foretold (changes : List Change) :
    Foretold d False (perform.replied <$> modify d dn changes a) (perform.replied <$> modify d dn changes b) := by
  have hpermissive : a.contains .permissiveModify = b.contains .permissiveModify := h.contains (by decide)
  simp only [modify, map_bind, ha, hb, updateResult_real ha, updateResult_preview hb, checkAssertion_agree h,
    preRead_agree h, postRead_agree h, ← hpermissive]
  exact .bind _ fun _ => .bind _ fun _ =>
    .of_noOp (Directory.modify_noOp changes _) (fun _ => rfl) fun y => preRead a y.1 ++ postRead a y.2

theorem modifyDn_foretold (r : ModifyDnRequest) :
    Foretold d (d.HasShorter r.dn) (modifyDn d r a) (modifyDn d r b) := by
  simp only [modifyDn, ha, hb, updateResult_real ha, updateResult_preview hb, checkAssertion_agree h,
    preRead_agree h, postRead_agree h, Directory.modifyDn_noOp, Directory.modifyDn_eq, Except.bind_map]
  refine .bind _ fun e => .bind _ fun _ => .bind _ fun p => ?_
  cases hc : d.carryOut r.dn p.1 p.2 with
  | done before after moved =>
    obtain ⟨rfl, rfl⟩ := Directory.carryOut_done hc
    have hnone : ¬ d.HasShorter r.dn := by
      rw [← Directory.carryOut_brokenOff_iff, hc]
      nofun
    exact .done .modifyDnResponse (fun _ => rfl) _ moved hnone
  | brokenOff moved =>
    have hsome : d.HasShorter r.dn := Directory.carryOut_brokenOff_iff.mp ⟨moved, hc⟩
    exact .brokenOff .modifyDnResponse (fun _ => rfl) _ moved hsome

end Updates

/-- What a request for an update does to the directory; other requests do nothing. -/
def update (d : Directory) (a : Admitted) : Op → Except Failure (Option Reply × Directory)
  | .addRequest dn attributes => perform.replied <$> add d dn attributes a
  | .deleteRequest dn => perform.replied <$> delete d dn a
  | .modifyRequest dn changes => perform.replied <$> modify d dn changes a
  | .modifyDnRequest r => modifyDn d r a
  | _ => .ok (none, d)

/-- A request renames an entry below which others are kept that have fewer relative names. -/
def Disrupts (d : Directory) (op : Op) : Prop := ∃ r, op = .modifyDnRequest r ∧ d.HasShorter r.dn

theorem disrupts_modifyDn {r : ModifyDnRequest} : Disrupts d (.modifyDnRequest r) ↔ d.HasShorter r.dn := by
  simp [Disrupts]

theorem update_foretold (h : a.Agree b) (ha : a.contains .noOp = false) (hb : b.contains .noOp = true) {op : Op}
    (ho : op.IsUpdate) : Foretold d (Disrupts d op) (update d a op) (update d b op) := by
  cases op with
  | addRequest dn attributes => simpa [Disrupts, update] using add_foretold h ha hb attributes
  | deleteRequest dn => simpa [Disrupts, update] using delete_foretold h ha hb
  | modifyRequest dn changes => simpa [Disrupts, update] using modify_foretold h ha hb changes
  | modifyDnRequest r => simpa [Disrupts, update] using modifyDn_foretold h ha hb r
  | _ => exact ho.elim

/-! ### Requests -/

variable {m : Message} {operation : Operation}

theorem gate_withNoOp (ho : operation ∈ ControlKind.noOp.operations) (hm : m.Unmarked) :
    s.gate c operation (m.withNoOp critical).controls =
      (s.gate c operation m.controls).map (·.withNoOp critical) := by
  simp only [gate, Message.withNoOp, Admitted.ofControls_noOp ho hm, Except.map_bind]
  refine bind_congr fun _ => ?_
  cases Admitted.ofControls operation m.controls with
  | error f => rfl
  | ok a =>
    simp only [Except.ok_map, Except.ok_mapError, Except.ok_bind, checkProxied_agree Admitted.agree_withNoOp]
    rfl

theorem ofControls_of_gate {controls : List Control} (h : s.gate c operation controls = .ok a) :
    Admitted.ofControls operation controls = .ok a := by
  simp only [gate, Except.bind_eq_ok_iff, Except.mapError_eq_ok_iff] at h
  obtain ⟨-, -, b, hb, -, -, hab⟩ := h
  obtain rfl : b = a := Except.ok.inj hab
  exact hb

theorem contains_noOp_of_gate (hm : m.Unmarked) (h : s.gate c operation m.controls = .ok a) :
    a.contains .noOp = false :=
  Admitted.contains_noOp_eq_false hm (ofControls_of_gate h)

/-- What a message with a request for an update does to the directory. -/
def requested (s : Service) (c : Connection) (operation : Operation) (m : Message) :
    Except Failure (Option Reply × Directory) := do
  update s.directory (← s.gate c operation m.controls) m.op

theorem requested_foretold (ho : operation ∈ ControlKind.noOp.operations) (hm : m.Unmarked) (hu : m.op.IsUpdate) :
    Foretold s.directory (Disrupts s.directory m.op) (requested s c operation m)
      (requested s c operation (m.withNoOp critical)) := by
  rw [requested, requested, gate_withNoOp ho hm, Except.bind_map]
  cases hg : s.gate c operation m.controls with
  | error f => exact .failed f
  | ok a => exact update_foretold Admitted.agree_withNoOp (contains_noOp_of_gate hm hg) Admitted.contains_withNoOp hu

/-- What is sent for an update under an identifier. -/
def sent (id : Int32) (operation : Operation) : Except Failure (Option Reply × Directory) → Handled
  | .ok (some reply, _) => .answered [{ id, op := reply.op, controls := reply.controls }]
  | .ok (none, _) => .brokenOff
  | .error f => .answered (Message.failure? id operation f.result).toList

theorem process_update (hu : m.op.IsUpdate) :
    s.process c operation m = ((updated s.directory (requested s c operation m)).1, c,
      (updated s.directory (requested s c operation m)).2) := by
  obtain ⟨id, op, controls⟩ := m
  unfold process requested
  cases s.gate c operation controls with
  | error f => rfl
  | ok a =>
    cases op with
    | addRequest _ | deleteRequest _ | modifyRequest _ | modifyDnRequest _ => rfl
    | _ => exact hu.elim

theorem handle_update (hu : m.op.IsUpdate) (ho : m.op.operation? = some operation) :
    (s.handle c m).1 = sent m.id operation (requested s c operation m) ∧
      (s.handle c m).2.2.directory = (updated s.directory (requested s c operation m)).2 := by
  have hbind : operation ≠ .bind := by
    rintro rfl
    obtain ⟨_, hsome, hmem⟩ := hu.operation
    cases Option.some.inj (ho.symm.trans hsome)
    exact absurd hmem (by decide)
  simp only [handle, ho, if_neg hbind, process_update hu]
  rcases requested s c operation m with f | ⟨_ | reply, moved⟩
  · exact ⟨rfl, rfl⟩
  · exact ⟨rfl, rfl⟩
  · exact ⟨rfl, rfl⟩

/-! ### Previews -/

/-- One response to an update foretells another: they are the same, but for the code and the text of success. -/
structure Foretells (preview real : Message) : Prop where
  noOperation_iff : preview.code? = some .noOperation ↔ real.code? = some .success
  controls_eq : real.code? = some .success → preview.controls = real.controls
  eq_of_ne : real.code? ≠ some .success → preview = real

/-- What is handled succeeds, as far as its preview tells. -/
def Handled.Promises (h : Handled) : Prop := ∃ p, h = .answered [p] ∧ p.code? = some .noOperation

theorem sent_failure (f : Failure) (ho : operation ∈ ControlKind.noOp.operations) (id : Int32) :
    ∃ r, sent id operation (.error f) = .answered [r] ∧ r.code? = some f.code := by
  simp only [ControlKind.operations, List.mem_cons, List.not_mem_nil, or_false] at ho
  rcases ho with rfl | rfl | rfl | rfl <;> exact ⟨_, rfl, rfl⟩

theorem Foretold.directory (h : Foretold d breaks real preview) : (updated d preview).2 = d := by
  cases h <;> rfl

theorem Foretold.sent_promises (h : Foretold d breaks real preview) (hb : breaks) (id : Int32)
    (hp : Handled.Promises (sent id operation preview)) (ho : operation ∈ ControlKind.noOp.operations) :
    sent id operation real = .brokenOff := by
  cases h with
  | failed f =>
    obtain ⟨r, hr, hcode⟩ := sent_failure f ho id
    obtain ⟨p, hp, hcode'⟩ := hp
    rw [hr] at hp
    simp only [Handled.answered.injEq, List.cons.injEq, and_true] at hp
    simp [← hp, hcode, f.code_ne] at hcode'
  | done respond hr controls after hnot => exact absurd hb hnot
  | brokenOff respond hr controls after => rfl

theorem Foretold.sent_foretells (h : Foretold d breaks real preview) (id : Int32)
    (hn : ¬ (breaks ∧ Handled.Promises (sent id operation preview))) (ho : operation ∈ ControlKind.noOp.operations) :
    ∃ p r, sent id operation preview = .answered [p] ∧ sent id operation real = .answered [r] ∧ Foretells p r := by
  cases h with
  | failed f =>
    obtain ⟨r, hr, hcode⟩ := sent_failure f ho id
    refine ⟨r, r, hr, hr, ⟨?_, fun _ => rfl, fun _ => rfl⟩⟩
    simp [hcode, f.code_ne]
  | done respond hr controls after =>
    refine ⟨_, _, rfl, rfl, ⟨?_, fun _ => rfl, ?_⟩⟩
    · simp [Message.code?, hr _, previewed, Result.success]
    · simp [Message.code?, hr _, Result.success]
  | brokenOff respond hr controls after hb =>
    exact absurd ⟨hb, _, rfl, by simp [Message.code?, hr _, previewed]⟩ hn

/-! ### Failures -/

/-- How a request may end with the directory that it leaves: the directory is another one only behind a response of
success, unless the request broke off. -/
inductive Settled (d : Directory) : Outcome → Directory → Prop
  | kept (outcome : Outcome) : Settled d outcome d
  | changed (reply : Reply) (h : reply.op.result? = some .success) (after : Directory) :
      Settled d (.answered [reply]) after
  | brokenOff (after : Directory) : Settled d .brokenOff after

/-- An update does nothing to the directory but with success. -/
def Keeps (d : Directory) (x : Except Failure (Option Reply × Directory)) : Prop :=
  ∀ reply after, x = .ok (some reply, after) → after = d ∨ reply.op.result? = some .success

theorem Foretold.keeps_real (h : Foretold d breaks real preview) : Keeps d real := by
  intro reply after hx
  cases h with
  | failed f => cases hx
  | done respond hr controls moved => cases hx; exact .inr (hr _)
  | brokenOff respond hr controls moved => cases hx

theorem Foretold.keeps_preview (h : Foretold d breaks real preview) : Keeps d preview := by
  intro reply after hx
  cases h <;> cases hx <;> exact .inl rfl

theorem update_keeps (a : Admitted) (op : Op) : Keeps d (update d a op) := by
  by_cases ho : op.IsUpdate
  · cases ha : a.contains .noOp with
    | false =>
      have h : a.Agree (a.withNoOp true) := Admitted.agree_withNoOp
      exact (update_foretold h ha Admitted.contains_withNoOp ho).keeps_real
    | true =>
      have h : a.withoutNoOp.Agree a := Admitted.withoutNoOp_agree
      exact (update_foretold h Admitted.contains_withoutNoOp ha ho).keeps_preview
  · intro reply after h
    cases op <;> first | cases h | exact absurd trivial ho

theorem Keeps.updated {x : Except Failure (Option Reply × Directory)} (h : Keeps d x) :
    Settled d (updated d x).1 (updated d x).2 := by
  rcases x with f | ⟨_ | reply, after⟩
  · exact .kept _
  · exact .brokenOff after
  · rcases h reply after rfl with rfl | hr
    · exact .kept _
    · exact .changed reply hr after

theorem perform_settled (op : Op) :
    Settled s.directory (s.perform c op a).1 (s.perform c op a).2.2 := by
  cases op with
  | addRequest dn attributes => exact (update_keeps a (.addRequest dn attributes)).updated
  | deleteRequest dn => exact (update_keeps a (.deleteRequest dn)).updated
  | modifyRequest dn changes => exact (update_keeps a (.modifyRequest dn changes)).updated
  | modifyDnRequest r => exact (update_keeps a (.modifyDnRequest r)).updated
  | extendedRequest r =>
    simp only [perform, Extension.respond]
    cases Extension.perform s.directory c.authenticatedDn s.generatedPassword r with
    | error f => exact .kept _
    | ok r => exact .changed _ rfl _
  | _ => exact .kept _

theorem process_settled :
    Settled s.directory (s.process c operation m).1 (s.process c operation m).2.2 := by
  unfold process
  cases s.gate c operation m.controls with
  | error f => exact .kept _
  | ok a => exact perform_settled m.op

/-- A request whose last response is not success leaves the directory as it is. -/
theorem handle_keeps {replies : List Message} (h : (s.handle c m).1 = .answered replies)
    (hc : finalCode replies ≠ some .success) : (s.handle c m).2.2.directory = s.directory := by
  cases ho : m.op.operation? with
  | none => simp [handle, ho]
  | some operation =>
    simp only [handle, ho] at h ⊢
    have hs : Settled s.directory (s.process (if operation = .bind then c.anonymous else c) operation m).1
        (s.process (if operation = .bind then c.anonymous else c) operation m).2.2 := process_settled
    revert hs h
    generalize s.process (if operation = .bind then c.anonymous else c) operation m = ended
    obtain ⟨outcome, c', after⟩ := ended
    intro h hs
    cases hs with
    | kept => split <;> rfl
    | changed reply hr =>
      obtain rfl : [{ id := m.id, op := reply.op, controls := reply.controls }] = replies := by
        simpa [messages] using h
      exact absurd (by simp [finalCode, hr, Result.success]) hc
    | brokenOff => simp at h

/-- An update is answered as its preview is, but for the code and the text of success, unless it breaks off; and the
preview leaves the directory as it is. So does whatever is not answered by success. -/
theorem preview_foretells (s : Service) (c : Connection) (m : Message) :
    (∀ critical, m.op.IsUpdate → m.Unmarked →
      let preview := s.handle c (m.withNoOp critical)
      let real := s.handle c m
      let broken := Disrupts s.directory m.op ∧ Handled.Promises preview.1
      preview.2.2.directory = s.directory ∧
        (¬ broken → ∃ p r, preview.1 = .answered [p] ∧ real.1 = .answered [r] ∧ Foretells p r) ∧
        (broken → real.1 = .brokenOff)) ∧
    ∀ replies, (s.handle c m).1 = .answered replies → finalCode replies ≠ some .success →
      (s.handle c m).2.2.directory = s.directory := by
  refine ⟨fun critical hu hm => ?_, fun replies => handle_keeps⟩
  obtain ⟨operation, ho, hop⟩ := hu.operation
  have hf : Foretold s.directory (Disrupts s.directory m.op) (requested s c operation m)
      (requested s c operation (m.withNoOp critical)) := requested_foretold hop hm hu
  obtain ⟨hreal, -⟩ := handle_update (s := s) (c := c) hu ho
  obtain ⟨hpreview, hdirectory⟩ := handle_update (s := s) (c := c) (m := m.withNoOp critical) hu ho
  intro preview real broken
  have hp : preview.1 = sent m.id operation (requested s c operation (m.withNoOp critical)) := hpreview
  have hr : real.1 = sent m.id operation (requested s c operation m) := hreal
  refine ⟨hdirectory.trans hf.directory, fun hn => ?_, fun hb => ?_⟩
  · rw [hp, hr]
    exact hf.sent_foretells m.id (hp ▸ hn) hop
  · rw [hr]
    exact hf.sent_promises hb.1 m.id (hp ▸ hb.2) hop

theorem preview_foretells_rename :
    let d : Directory :=
      { store := ((Store.put {} ⟨"o=x", []⟩).put ⟨"ou=a,o=x", []⟩).put ⟨"cn=b,ou=a,o=x", []⟩, bases := ["o=x"] }
    let s := Service.start d {} {}
    let m : Message := { id := 1, op := .modifyDnRequest { dn := "ou=a,o=x", newRdn := "ou=c", deleteOldRdn := true } }
    m.op.IsUpdate ∧ m.Unmarked ∧ ¬ Disrupts s.directory m.op ∧
      (s.handle {} (m.withNoOp true)).2.2.directory = s.directory ∧
      (s.handle {} m).1 = .answered [{ id := 1, op := .modifyDnResponse .success }] ∧
      ∃ p r, (s.handle {} (m.withNoOp true)).1 = .answered [p] ∧ (s.handle {} m).1 = .answered [r] ∧ Foretells p r := by
  intro d s m
  have hu : m.op.IsUpdate := trivial
  have hm : m.Unmarked := by simp [m, Message.Unmarked]
  have hd : ¬ Disrupts s.directory m.op := by
    rw [disrupts_modifyDn]
    decide +kernel
  obtain ⟨hkept, hforetold, -⟩ := (preview_foretells s {} m).1 true hu hm
  have hreal : (s.handle {} m).1 = .answered [{ id := 1, op := .modifyDnResponse .success }] := by
    decide +kernel
  exact ⟨hu, hm, hd, hkept, hreal, hforetold fun hb => hd hb.1⟩

/-- The preview of a renaming may promise what then breaks off. The name of the last entry has a comma in its value, so
that its key lies below that of the renamed one. -/
theorem not_preview_foretells_escaped :
    let d : Directory :=
      { store := (((Store.put {} ⟨"c=y", []⟩).put ⟨"c=y,c=y", []⟩).put ⟨"o=x,c=y,c=y", []⟩).put
          ⟨"cn=a\\,o=x\\,c=y,c=y", []⟩
        bases := ["c=y"] }
    let s := Service.start d {} {}
    let m : Message :=
      { id := 1, op := .modifyDnRequest { dn := "o=x,c=y,c=y", newRdn := "o=z", deleteOldRdn := true } }
    m.op.IsUpdate ∧ m.Unmarked ∧
      (s.handle {} (m.withNoOp true)).1 = .answered [{ id := 1, op := .modifyDnResponse previewed }] ∧
      (s.handle {} m).1 = .brokenOff := by
  refine ⟨trivial, by simp [Message.Unmarked], by decide +kernel, by decide +kernel⟩

end Service

end Ldap
