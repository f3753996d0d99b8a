import Ldap.Proofs.Ber.Buffer
import Ldap.Proofs.Ber.Ending
import Ldap.Proofs.Message.Framing
import Ldap.Proofs.Message.Steps
import Ldap.Proofs.Message.Stream
import Ldap.Proofs.Service.Response
import Ldap.Server.Basic

/-! What a client is told. The bytes of a client make up messages to the place where the server stops listening:
at the end of the input, at an unbind, or at what cannot be decoded or is no request. However these bytes arrive,
the client is sent the encoded responses to its requests, in order, and in the last two cases a notice. What it sends
behind that place makes no difference. Only a request that breaks off is an exception. -/

namespace Ldap

open Ber (Ahead Buffer Coupling Delivery KeepsOpen KeepsQuiet Reader ReadM)
open Ber.Delivery (Plain content)
open Message (encodeAll)

variable {s : Service} {c : Connection} {r r' : Reader} {m : Message} {ms : List Message}
  {ds ds' : List Delivery}

/-! ### Reading the next message -/

namespace Message

theorem lockstep_read (c : Coupling) : c.Lockstep read := c.compositional.message

theorem keepsQuiet_read : KeepsQuiet read := KeepsQuiet.compositional.message

/-- Where there is a message, reading it leaves the end of the input ahead. -/
theorem run_read_open (hr : r.Open) : Ahead (read.run r) ∨ ∃ r', read.run r = .ok none r' := by
  have h := KeepsOpen.watchful
  rw [read, ReadM.sequence?]
  simp only [bind_assoc]
  obtain ⟨tag, t, hx, ht⟩ | ⟨t, hx⟩ := ReadM.run_tag?_open hr
  · rw [ReadM.run_bind_of_ok hx]
    dsimp only
    simp only [bind_assoc, pure_bind]
    exact .inl (h.bind h.length (fun n => h.get_bind (fun r => h.map h.messageBody) fun _ _ => rfl) t ht)
  · rw [ReadM.run_bind_of_ok hx]
    exact .inr ⟨_, rfl⟩

/-- A message takes a byte at least. -/
theorem pending_lt_of_read (h : read.run r = .ok (some m) r') : r'.pending.length < r.pending.length := by
  have ha : read.answer r = .ok (some m, r') := by rw [ReadM.answer, h]
  rw [read_eq] at ha
  obtain ⟨tag?, t, htag, ha⟩ := ReadM.answer_bind_inv ha
  cases tag? with
  | none => cases ha
  | some tag =>
    obtain ⟨hp, hs⟩ := ReadM.passes_of_tag? htag
    obtain ⟨⟨taken, hp'⟩, -⟩ := (Ber.Moves.length.bind fun n => Ber.Moves.get.bind fun u =>
      moves_body.bind fun _ => Ber.Moves.pure_of (Q := fun _ _ => True) fun _ _ => trivial) t hs _ _ ha
    have hall := congrArg List.length (hp.trans hp').pending
    simp only [List.length_append, List.length_cons, List.length_nil] at hall
    omega

end Message

/-! ### Requests in a row -/

/-- The responses that are sent. -/
def Service.Handled.replies : Service.Handled → List Message
  | .answered replies => replies
  | _ => []

namespace Service

/-- Handles one request after the other, on one connection. -/
def handleAll : Service → Connection → List Message → List Message × Connection × Service
  | s, c, [] => ([], c, s)
  | s, c, m :: ms =>
    let (handled, c, s) := s.handle c m
    let (replies, c, s) := s.handleAll c ms
    (handled.replies ++ replies, c, s)

/-- No request breaks off when it is its turn. -/
def AllAnswered : Service → Connection → List Message → Prop
  | _, _, [] => True
  | s, c, m :: ms => ¬ s.BreaksOff c m ∧ (s.handle c m).2.2.AllAnswered (s.handle c m).2.1 ms

end Service

namespace Server

/-! ### The output buffer -/

theorem sendEach_fst (b : Buffer) (ms : List Message) : (sendEach b ms).1 = encodeAll ms := by
  induction ms generalizing b with
  | nil => rfl
  | cons m ms ih =>
    have hfilled : (Buffer.add m.toItem b.clear).toList = m.encode := by
      rw [Buffer.toList_add, Message.encode, Ber.Item.toBytes_eq_encode]
      rfl
    rw [sendEach]
    dsimp only
    rw [hfilled, ih, Message.encodeAll_cons]

/-- Whatever a buffer was used for before, what goes out are the messages. -/
theorem send_fst (b : Buffer) (ms : List Message) : (send b ms).1 = encodeAll ms := by
  cases ms with
  | nil => rfl
  | cons m ms => exact sendEach_fst b (m :: ms)

/-! ### What is heard -/

/-- Why the server stops listening. -/
inductive Stop where
  | ended
  | undecodable (e : Ber.Error)
  | response (m : Message)
  | unbound

namespace Stop

/-- The notice with which the client is left, if any. -/
def notice : Stop → List Message
  | .ended | .unbound => []
  | .undecodable e => [.disconnectionNotice .protocolError e.message]
  | .response m => [.disconnectionNotice .protocolError (Failure.responseOperation m.id m.op.tag).message]

/-- The service afterwards, which counts what it could not decode. -/
def settle (s : Service) : Stop → Service
  | .undecodable _ => { s with metrics := s.metrics.undecodable }
  | _ => s

/-- The server has stopped because no more was sent. -/
def AtEnd : Stop → Prop
  | .ended | .undecodable (.truncated _) => True
  | _ => False

/-- What there is to tell of a conversation that came to this stop behind requests with some replies. -/
def transcript (stop : Stop) (replies : List Message) (s : Service) : Transcript :=
  { written := encodeAll (replies ++ stop.notice), service := stop.settle s }

end Stop

/-- The requests that are read before the server stops listening, and the reader then. -/
inductive Heard : Reader → List Message → Stop → Reader → Prop
  | ended {r r' : Reader} (h : Message.read.run r = .ok none r') : Heard r [] .ended r'
  | undecodable {r r' : Reader} {e : Ber.Error} (h : Message.read.run r = .error e r') (he : e.isUndecodable) :
      Heard r [] (.undecodable e) r'
  | response {r r' : Reader} {m : Message} (h : Message.read.run r = .ok (some m) r') (ho : m.op.operation? = none) :
      Heard r [] (.response m) r'
  | unbound {r r' : Reader} {m : Message} (h : Message.read.run r = .ok (some m) r') (hu : m.op = .unbindRequest) :
      Heard r [m] .unbound r'
  | next {r r' r'' : Reader} {m : Message} {ms : List Message} {stop : Stop}
      (h : Message.read.run r = .ok (some m) r') (ho : m.op.operation? ≠ none) (hu : m.op ≠ .unbindRequest)
      (hr : Heard r' ms stop r'') : Heard r (m :: ms) stop r''

variable {stop : Stop}

/-- What is heard, by what is read next. -/
theorem Heard.cases_read {t : Reader} (h : Heard r ms stop t) : match Message.read.run r with
    | .error e r' => ms = [] ∧ stop = .undecodable e ∧ t = r'
    | .ok none r' => ms = [] ∧ stop = .ended ∧ t = r'
    | .ok (some m) r' =>
      if m.op.operation? = none then ms = [] ∧ stop = .response m ∧ t = r'
      else if m.op = .unbindRequest then ms = [m] ∧ stop = .unbound ∧ t = r'
      else ∃ ms', ms = m :: ms' ∧ Heard r' ms' stop t := by
  cases h with
  | ended h =>
    rw [h]
    exact ⟨rfl, rfl, rfl⟩
  | undecodable h =>
    rw [h]
    exact ⟨rfl, rfl, rfl⟩
  | response h ho =>
    rw [h]
    exact (if_pos ho).mpr ⟨rfl, rfl, rfl⟩
  | unbound h hu =>
    have ho : ¬ Op.unbindRequest.operation? = none := nofun
    rw [h]
    dsimp only
    rw [if_neg (hu ▸ ho), if_pos hu]
    exact ⟨rfl, rfl, rfl⟩
  | next h ho hu hr =>
    rw [h]
    dsimp only
    rw [if_neg ho, if_neg hu]
    exact ⟨_, rfl, hr⟩

/-- What is heard is settled by the reader. -/
theorem Heard.unique {ms' : List Message} {stop' : Stop} {t t' : Reader} (h : Heard r ms stop t)
    (h' : Heard r ms' stop' t') : ms' = ms ∧ stop' = stop ∧ t' = t := by
  have hread := h'.cases_read
  induction h generalizing ms' stop' t' with
  | ended h =>
    rw [h] at hread
    exact hread
  | undecodable h =>
    rw [h] at hread
    exact hread
  | response h ho =>
    rw [h] at hread
    exact (if_pos ho).mp hread
  | unbound h hu =>
    have ho : ¬ Op.unbindRequest.operation? = none := nofun
    rw [h] at hread
    dsimp only at hread
    rwa [if_neg (hu ▸ ho), if_pos hu] at hread
  | next h ho hu hr ih =>
    rw [h] at hread
    dsimp only at hread
    rw [if_neg ho, if_neg hu] at hread
    obtain ⟨ms', rfl, hr'⟩ := hread
    obtain ⟨rfl, rfl, rfl⟩ := ih hr' hr'.cases_read
    exact ⟨rfl, rfl, rfl⟩

theorem Heard.length_le {t : Reader} (h : Heard r ms stop t) : ms.length ≤ r.pending.length := by
  induction h with
  | ended | undecodable | response => exact Nat.zero_le _
  | unbound h => exact Nat.lt_of_le_of_lt (Nat.zero_le _) (Message.pending_lt_of_read h)
  | next h _ _ _ ih => exact Nat.lt_of_le_of_lt ih (Message.pending_lt_of_read h)

/-- On a transport that neither fails nor keeps waiting, the server comes to a stop. -/
theorem exists_heard (hr : r.Quiet) : ∃ ms stop t, Heard r ms stop t := by
  induction hn : r.pending.length using Nat.strong_induction_on generalizing r with
  | h n ih =>
    cases h : Message.read.run r with
    | error e r' => exact ⟨[], _, r', .undecodable h (Message.keepsQuiet_read.error hr h).1⟩
    | ok m? r' =>
      cases m? with
      | none => exact ⟨[], _, r', .ended h⟩
      | some m =>
        by_cases ho : m.op.operation? = none
        · exact ⟨[], _, r', .response h ho⟩
        by_cases hu : m.op = .unbindRequest
        · exact ⟨[m], _, r', .unbound h hu⟩
        obtain ⟨ms, stop, t, ht⟩ := ih r'.pending.length (hn ▸ Message.pending_lt_of_read h)
          (Message.keepsQuiet_read.ok hr h) rfl
        exact ⟨m :: ms, stop, t, .next h ho hu ht⟩

/-- Requests that are sent are heard, whatever else they do. -/
theorem heard_encodeAll (hms : ∀ m ∈ ms, m.Encodable ∧ m.op.operation? ≠ none ∧ m.op ≠ .unbindRequest) (hr : r.At ds)
    (hl : r.limit = Ber.maxLength) (hp : Plain ds) (hc : content ds = encodeAll ms) : ∃ t, Heard r ms .ended t := by
  induction ms generalizing r ds with
  | nil => exact ⟨_, .ended (Message.run_read_ended hr hp hc)⟩
  | cons m ms ih =>
    obtain ⟨⟨he, ho, hu⟩, hms⟩ := List.forall_mem_cons.mp hms
    rw [← List.append_nil ds] at hr
    obtain ⟨left, hpl, hcl, ha⟩ := Message.answer_read_arrived he hr hl hp hc
    rw [List.append_nil] at ha
    obtain ⟨t, ht⟩ := ih hms (hr.advance _ left) hl hpl hcl
    exact ⟨t, .next (ReadM.run_of_answer_ok ha) ho hu ht⟩

theorem Heard.beyond {k : Coupling} {t : Reader} (h : Heard r ms stop t) (hr : k.Beyond r) : k.Beyond t := by
  have hstep : ∀ {r r' : Reader} {x}, Message.read.run r = .ok x r' → k.Beyond r → k.Beyond r' := by
    intro r r' x hx hr
    have := (Message.lockstep_read k).beyond hr
    rwa [ReadM.behind_of_ok hx] at this
  induction h with
  | ended h => exact hstep h hr
  | undecodable h he =>
    have := (Message.lockstep_read k).beyond hr
    rwa [ReadM.behind_of_error h] at this
  | response h => exact hstep h hr
  | unbound h => exact hstep h hr
  | next h _ _ _ ih => exact ih (hstep h hr)

/-- The same is heard of readers that are alike, if that does not go too far. -/
theorem Heard.alike {k : Coupling} {t u : Reader} (h : Heard r ms stop t) (ht : ¬ k.Beyond t) (hr : k.Alike r u) :
    ∃ t', Heard u ms stop t' := by
  have hstep : ∀ {r r' u x}, Message.read.run r = .ok x r' → k.Alike r u → ¬ k.Beyond r' →
      ∃ u', Message.read.run u = .ok x u' ∧ k.Alike r' u' := by
    intro r r' u x hx hu hb
    obtain hgone | ha := (Message.lockstep_read k).agree hu
    · rw [ReadM.behind_of_ok hx] at hgone
      exact absurd hgone hb
    · rw [hx] at ha
      generalize hy : Message.read.run u = y at ha
      cases ha with
      | ok _ ha => exact ⟨_, rfl, ha⟩
  induction h generalizing u with
  | ended h =>
    obtain ⟨t', hrun, -⟩ := hstep h hr ht
    exact ⟨t', .ended hrun⟩
  | undecodable h he =>
    obtain hgone | ha := (Message.lockstep_read k).agree hr
    · rw [ReadM.behind_of_error h] at hgone
      exact absurd hgone ht
    · rw [h] at ha
      generalize hy : Message.read.run u = y at ha
      cases ha with
      | error _ ha => exact ⟨_, .undecodable hy he⟩
  | response h ho =>
    obtain ⟨t', hrun, -⟩ := hstep h hr ht
    exact ⟨t', .response hrun ho⟩
  | unbound h hu =>
    obtain ⟨t', hrun, -⟩ := hstep h hr ht
    exact ⟨t', .unbound hrun hu⟩
  | next h ho hu hms ih =>
    obtain ⟨u', hrun, hu'⟩ := hstep h hr fun hb => ht (hms.beyond hb)
    obtain ⟨t', ht'⟩ := ih ht hu'
    exact ⟨t', .next hrun ho hu ht'⟩

/-- Behind any other stop than the end of the input, the end is still ahead. -/
theorem Heard.open {t : Reader} (h : Heard r ms stop t) (hr : r.Open) : stop.AtEnd ∨ t.Open := by
  have hok : ∀ {r r' : Reader} {m}, Message.read.run r = .ok (some m) r' → r.Open → r'.Open := by
    intro r r' m hx hr
    obtain ha | ⟨t, ht⟩ := Message.run_read_open hr
    · rwa [hx] at ha
    · cases hx.symm.trans ht
  induction h with
  | ended => exact .inl trivial
  | undecodable h he =>
    obtain ha | ⟨t, ht⟩ := Message.run_read_open hr
    · rw [h] at ha
      refine ha.imp (fun hkind => ?_) id
      obtain ⟨part, rfl⟩ := Ber.Error.truncated_of_kind hkind
      trivial
    · cases h.symm.trans ht
  | response h => exact .inr (hok h hr)
  | unbound h => exact .inr (hok h hr)
  | next h _ _ _ ih => exact ih (hok h hr)

/-! ### What is told -/

/-- What there is to tell of requests that are heard before the server stops listening. -/
def relate : Service → Connection → List Message → Stop → Transcript
  | s, _, [], stop => stop.transcript [] s
  | s, c, m :: ms, stop =>
    let (handled, c, s) := s.handle c m
    if handled = .brokenOff then { written := [], service := s, lost := true }
    else (relate s c ms stop).after (encodeAll handled.replies)

theorem breakOff_undecodable {e : Ber.Error} (he : e.isUndecodable) (b : Buffer) :
    breakOff s b e = (Stop.undecodable e).transcript [] s := by
  have hsent : (send b [.disconnectionNotice .protocolError e.message]).1 = encodeAll (Stop.undecodable e).notice :=
    send_fst b _
  cases e with
  | timeout initial => cases he
  | transport reason => cases he
  | _ =>
    rw [Stop.transcript, List.nil_append, ← hsent]
    rfl

/-- A request is read, handled and answered, before the next one is. -/
theorem converse_message {r' : Reader} (h : Message.read.run r = .ok (some m) r') (ho : m.op.operation? ≠ none)
    (count : Nat) (b : Buffer) : ∃ b', converse (count + 1) s c b r =
      if (s.handle c m).1 = .brokenOff then { written := [], service := (s.handle c m).2.2, lost := true }
      else (if m.op = .unbindRequest then { written := [], service := (s.handle c m).2.2 }
        else converse count (s.handle c m).2.2 (s.handle c m).2.1 b' r').after
          (encodeAll (s.handle c m).1.replies) := by
  rw [converse, h]
  dsimp only
  obtain hb | ⟨replies, hb⟩ := s.handle_request (c := c) ho
  all_goals
    rcases hx : s.handle c m with ⟨handled, c', s'⟩
    rw [hx] at hb
    subst hb
  · exact ⟨b, rfl⟩
  · have hne : Service.Handled.answered replies ≠ .brokenOff := nofun
    refine ⟨(send b replies).2, ?_⟩
    dsimp only
    rw [send_fst, if_neg hne]
    by_cases hu : m.op = .unbindRequest
    · rw [if_pos hu, if_pos hu, Transcript.after, List.append_nil]
      rfl
    · rw [if_neg hu, if_neg hu]
      rfl

theorem converse_of_heard {t : Reader} (h : Heard r ms stop t) {count : Nat} (hcount : ms.length < count) (b : Buffer) :
    converse count s c b r = relate s c ms stop := by
  induction h generalizing s c count b with
  | ended h =>
    obtain ⟨count, rfl⟩ := Nat.exists_eq_add_one_of_ne_zero (Nat.ne_of_gt hcount)
    rw [converse, h]
    rfl
  | undecodable h he =>
    obtain ⟨count, rfl⟩ := Nat.exists_eq_add_one_of_ne_zero (Nat.ne_of_gt hcount)
    rw [converse, h]
    dsimp only
    rw [breakOff_undecodable he]
    rfl
  | response h ho =>
    obtain ⟨count, rfl⟩ := Nat.exists_eq_add_one_of_ne_zero (Nat.ne_of_gt hcount)
    rw [converse, h]
    dsimp only
    rw [Service.handle_response ho]
    dsimp only
    rw [send_fst]
    rfl
  | unbound h hu =>
    obtain ⟨count, rfl⟩ := Nat.exists_eq_add_one_of_ne_zero (Nat.ne_of_gt (Nat.zero_lt_of_lt hcount))
    obtain ⟨b', hrun⟩ := converse_message (s := s) (c := c) h (by rw [hu]; nofun) count b
    rw [hrun, if_pos hu, relate]
    rfl
  | next h ho hu hms ih =>
    obtain ⟨count, rfl⟩ := Nat.exists_eq_add_one_of_ne_zero (Nat.ne_of_gt (Nat.zero_lt_of_lt hcount))
    obtain ⟨b', hrun⟩ := converse_message (s := s) (c := c) h ho count b
    rw [hrun, if_neg hu, relate]
    dsimp only
    rw [ih (Nat.lt_of_succ_lt_succ hcount)]

/-- If no request breaks off, the responses to all of them are sent. -/
theorem relate_of_allAnswered (h : s.AllAnswered c ms) :
    relate s c ms stop = stop.transcript (s.handleAll c ms).1 (s.handleAll c ms).2.2 := by
  induction ms generalizing s c with
  | nil => rfl
  | cons m ms ih =>
    obtain ⟨hm, hms⟩ := h
    rw [relate]
    dsimp only
    rw [if_neg (Service.handle_brokenOff_iff.not.mpr hm), ih hms]
    simp [Transcript.after, Stop.transcript, Service.handleAll, encodeAll, List.append_assoc]

theorem lost_relate (h : ¬ s.AllAnswered c ms) : (relate s c ms stop).lost := by
  induction ms generalizing s c with
  | nil => exact absurd trivial h
  | cons m ms ih =>
    rw [relate]
    dsimp only
    split
    · rfl
    · rename_i hm
      exact ih fun hms => h ⟨Service.handle_brokenOff_iff.not.mp hm, hms⟩

theorem byteCount_eq (ds : List Delivery) : byteCount ds = (content ds).length := by
  induction ds with
  | nil => rfl
  | cons d ds ih => cases d <;> simp [byteCount, content, ih]

theorem ofReader_of_heard {t : Reader} (hr : r.At ds) (h : Heard r ms stop t) :
    Transcript.ofReader s r = relate s {} ms stop := by
  refine converse_of_heard h ?_ _
  have hle := h.length_le
  rw [Reader.pending_of_none hr.lookahead, hr.source] at hle
  rw [hr.source, Option.getD_some, byteCount_eq]
  exact Nat.lt_succ_of_le hle

theorem at_reader (limits : Config.Connections) (ds : List Delivery) : (reader limits ds).At ds := ⟨rfl, rfl⟩

/-- What is heard of a client does not depend on what it sends behind the place where the server stops listening. -/
theorem Heard.of_shared {limits : Config.Connections} {t : Reader} (h : Heard (reader limits ds) ms stop t)
    (hp : Plain ds) (hp' : Plain ds') {shared other : List UInt8} (hc : content ds = shared ++ t.unread)
    (hc' : content ds' = shared ++ other) (ho : stop.AtEnd → other = []) :
    ∃ t', Heard (reader limits ds') ms stop t' := by
  have hshared : ∀ {ds'} {other : List UInt8}, Plain ds' → content ds' = shared ++ other →
      (t.unread = [] → other = []) → ∃ t', Heard (reader limits ds') ms stop t' := by
    intro ds' other hp' hc' ho
    refine h.alike (k := .ofShared t.unread other ho) (Nat.lt_irrefl _) ⟨?_, rfl, trivial, trivial⟩
    exact .some ⟨hp, hp', shared, hc, hc'⟩
  by_cases hend : stop.AtEnd ∨ t.unread ≠ []
  · refine hshared hp' hc' fun hnil => hend.elim ho fun hne => absurd hnil hne
  · obtain ⟨hend, hnil⟩ := not_or.mp hend
    rw [not_not.mp hnil] at hc
    -- an interruption at the end shows that the stop is in front of it
    obtain ⟨u, hu⟩ := hshared (Ber.plain_append_interrupted hp)
      (by rw [Delivery.content_append, hc, List.append_assoc]; rfl) fun _ => rfl
    obtain ⟨ys, -, hopen⟩ := (hu.open ⟨ds, hp, rfl⟩).resolve_left hend
    refine hu.alike (k := .ofOpen other) ?_ ⟨?_, rfl, trivial, trivial⟩
    · rw [Coupling.Beyond, hopen]
      exact List.append_ne_nil_of_right_ne_nil _ (List.cons_ne_nil _ _)
    · exact .some ⟨ds, hp, rfl, hp', by rw [hc, List.append_nil, hc']⟩

/-- The bytes of a client make up requests to a stop. If none of the requests breaks off, the client is sent the
encoded responses to them, in order, and then the notice of the stop; and only then. Neither how the bytes arrive nor
what comes behind the stop makes a difference, where the stop is not the end of the input. -/
theorem ofReader_spec (s : Service) (limits : Config.Connections) (ds : List Delivery) (hp : Plain ds) :
    ∃ ms stop t, (∀ ms' stop' t', Heard (reader limits ds) ms' stop' t' ↔ ms' = ms ∧ stop' = stop ∧ t' = t) ∧
      (Transcript.ofReader s (reader limits ds) = stop.transcript (s.handleAll {} ms).1 (s.handleAll {} ms).2.2 ↔
        s.AllAnswered {} ms) ∧
      ∀ ds' shared other, Plain ds' → content ds = shared ++ t.unread → content ds' = shared ++ other →
        (stop.AtEnd → other = []) →
        Transcript.ofReader s (reader limits ds') = Transcript.ofReader s (reader limits ds) := by
  obtain ⟨ms, stop, t, h⟩ := exists_heard (r := reader limits ds) hp
  refine ⟨ms, stop, t, fun ms' stop' t' => ⟨h.unique, ?_⟩, ?_, ?_⟩
  · rintro ⟨rfl, rfl, rfl⟩
    exact h
  · rw [ofReader_of_heard (at_reader limits ds) h]
    refine ⟨fun heq => ?_, relate_of_allAnswered⟩
    by_contra hb
    have hlost : (relate s {} ms stop).lost := lost_relate hb
    rw [heq] at hlost
    cases hlost
  · intro ds' shared other hp' hc hc' ho
    obtain ⟨t', h'⟩ := h.of_shared hp hp' hc hc' ho
    rw [ofReader_of_heard (at_reader limits ds) h, ofReader_of_heard (at_reader limits ds') h']

theorem ofReader_spec_unbind :
    let s : Service := { directory := { bases := ["o=x"] }, mechanisms := {}, settings := {} }
    let m : Message := ⟨3, .unbindRequest, []⟩
    let ds : List Delivery := [.bytes [0x30, 0x05, 0x02], .interrupted, .bytes [0x01, 0x03, 0x42, 0x00, 0x30]]
    Plain ds ∧ s.AllAnswered {} [m] ∧ Transcript.ofReader s (reader {} ds) =
      Stop.unbound.transcript (s.handleAll {} [m]).1 (s.handleAll {} [m]).2.2 := by
  intro s m ds
  have hread : Message.read.run (reader {} ds) = .ok (some m) ((reader {} ds).advance 7 [.bytes [0x30]]) := by rfl
  have hall : s.AllAnswered {} [m] := by
    refine ⟨?_, trivial⟩
    rintro ⟨r, a, e, p, hr, -⟩
    cases hr
  obtain ⟨ms, stop, t, hheard, hspec, -⟩ := ofReader_spec s {} ds (by decide)
  obtain ⟨rfl, rfl, -⟩ := (hheard _ _ _).mp (.unbound hread rfl)
  exact ⟨by decide, hall, hspec.mpr hall⟩

/-- A renaming that breaks off leaves those behind it unheard. The name of the last entry has a comma in its value, so
that its key lies below that of the renamed one. -/
theorem not_ofReader_spec_escaped :
    let d : Directory :=
      { store := (((Store.put {} ⟨"c=y", []⟩).put ⟨"c=y,c=y", []⟩).put ⟨"o=x,c=y,c=y", []⟩).put
          ⟨"cn=a\\,o=x\\,c=y,c=y", []⟩
        bases := ["c=y"] }
    let s := Service.start d {} {}
    let m : Message :=
      { id := 1, op := .modifyDnRequest { dn := "o=x,c=y,c=y", newRdn := "o=z", deleteOldRdn := true } }
    let m' : Message := { id := 2, op := .deleteRequest "o=q,c=y" }
    let limits : Config.Connections := { maxMessageSize := 0 }
    let ds : List Delivery := [.bytes (encodeAll [m, m'])]
    (∃ t, Heard (reader limits ds) [m, m'] .ended t) ∧
      (Transcript.ofReader s (reader limits ds)).written ≠ encodeAll (s.handleAll {} [m, m']).1 := by
  intro d s m m' limits ds
  have hheard : ∃ t, Heard (reader limits ds) [m, m'] .ended t := by
    have hm : m.Encodable := ⟨trivial, by decide +kernel⟩
    have hm' : m'.Encodable := ⟨trivial, by decide +kernel⟩
    refine heard_encodeAll ?_ (at_reader limits ds) rfl (by simp [ds, Plain, Delivery.isPlain]) (List.append_nil _)
    exact List.forall_mem_cons.mpr ⟨⟨hm, by decide, by decide⟩,
      List.forall_mem_singleton.mpr ⟨hm', by decide, by decide⟩⟩
  obtain ⟨t, ht⟩ := id hheard
  have hbroken : (s.handle {} m).1 = .brokenOff := by decide +kernel
  have hanswered : (s.handleAll {} [m, m']).1 ≠ [] := by decide +kernel
  refine ⟨hheard, ?_⟩
  rw [ofReader_of_heard (at_reader limits ds) ht, relate]
  dsimp only
  rw [if_pos hbroken]
  obtain ⟨reply, rest, hreplies⟩ := List.exists_cons_of_ne_nil hanswered
  rw [hreplies, Message.encodeAll_cons, Message.encode_eq]
  exact (List.append_ne_nil_of_left_ne_nil (by simpa using reply.toItem.cells_ne_nil) _).symm

end Server
end Ldap
