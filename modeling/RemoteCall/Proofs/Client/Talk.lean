import RemoteCall.Proofs.Client.Trace
import RemoteCall.Proofs.Endpoint.Calls
import RemoteCall.Proofs.Pipe

/-! A client that talks through a pipe: the fragments of a request go out one by one, and then the
replies are read back. -/

namespace RemoteCall.Client

/-! ## Readiness -/

/-- The pipe can be talked through, and its endpoint serves the context. -/
structure Ready (s : Service) (contextId : UInt16) (l : PipeLink) : Prop where
  connected : l.isConnected = true
  inbound : l.pipe.inbound = []
  size : 65536 ≤ l.pipe.maxMessageSize
  serves : l.pipe.endpoint.Serves s contextId

/-- A fragment of a request as clients send them. -/
structure Sendable (contextId opnum : UInt16) (r : Request) : Prop where
  written : ∃ b, (Pdu.request r).Written b
  major : r.header.major = Header.version
  context : r.contextId = contextId
  operation : r.opnum = opnum

variable {s : Service} {contextId opnum : UInt16} {callId : UInt32} {c : Client} {l : PipeLink}

/-- Any call can be made through the pipe, and is answered. -/
structure Receptive (l : PipeLink) : Prop where
  connected : l.isConnected = true
  inbound : l.pipe.inbound = []
  size : 65536 ≤ l.pipe.maxMessageSize
  room : Header.size + Response.fixedLength < l.pipe.endpoint.maxTransmit.toNat

theorem Ready.receptive (h : Ready s contextId l) : Receptive l :=
  ⟨h.connected, h.inbound, h.size, h.serves.room⟩

theorem Receptive.withQueue (h : Receptive l) (outbound : List UInt8) :
    Receptive (l.withQueue outbound) := ⟨h.connected, h.inbound, h.size, h.room⟩

theorem Receptive.answered (h : Receptive l) {t : Turn} (answers : List (List UInt8))
    (hroom : Header.size + Response.fixedLength < t.endpoint.maxTransmit.toNat) :
    Receptive (l.answered t answers) := ⟨h.connected, h.inbound, h.size, hroom⟩

/-- The link once a call has been taken in, with its replies. -/
def replied (l : PipeLink) (callId : UInt32) (bs : List (List UInt8)) : PipeLink :=
  l.answered ⟨.ok bs, { l.pipe.endpoint with assembly := .complete callId }, l.groups⟩ bs

/-- Run: all but the last fragment are taken in silently, and the last one brings the replies. -/
theorem sendAll_fragments {first : Bool} {rs : List Request} {payload : List UInt8}
    (hl : Receptive l) (hsendable : ∀ r ∈ rs, Sendable contextId opnum r)
    (hrs : Fragments callId first (rs.map Request.fragment) payload)
    (hawaits : l.pipe.endpoint.assembly.Awaits callId first) :
    ∃ us bs, sendAll PipeLink.transport rs (c, l) = .ok () (c, replied l callId bs) ∧
      List.Forall₂ Pdu.Written us bs ∧ Replies callId us (l.pipe.endpoint.outcome contextId opnum
        (l.pipe.endpoint.assembly.gathered ++ payload)) := by
  induction rs generalizing first payload l with
  | nil => cases hrs
  | cons r rs ih =>
    obtain ⟨⟨b, hb⟩, hmajor, rfl, rfl⟩ := hsendable r List.mem_cons_self
    have hencode : r.encode = .ok b := hb.encode
    have hsend : ∀ {t : Turn} {answers}, l.pipe.endpoint.process l.groups b = t →
        t.answers = .ok answers → sendAll PipeLink.transport (r :: rs) (c, l) =
          sendAll PipeLink.transport rs (c, l.answered t answers) := by
      rintro _ answers rfl hanswers
      have hlink := PipeLink.send_unit hb hl.connected hl.inbound hl.size hanswers
      rw [sendAll]
      exact (bind_of_ok (given_of_ok hencode)).trans (bind_of_ok (onLink_of_ok hlink))
    generalize hfs : (r :: rs).map Request.fragment = fs at hrs
    cases hrs with
    | last hid hfirst hlast =>
      obtain ⟨rfl, hnil⟩ := List.cons.inj hfs
      obtain rfl := List.map_eq_nil_iff.mp hnil
      obtain rfl : r.header.callId = callId := hid
      obtain ⟨us, bs, hprocess, hbs, hreplies⟩ := Endpoint.process_last (g := l.groups) hb hmajor
        (hawaits.accepts rfl hfirst) hlast hl.room
      exact ⟨us, bs, (hsend hprocess rfl).trans rfl, hbs, hreplies⟩
    | more hid hfirst hlast hrest =>
      obtain ⟨rfl, rfl⟩ := List.cons.inj hfs
      obtain rfl : r.header.callId = callId := hid
      have hprocess := Endpoint.process_more (g := l.groups) hb hmajor (hawaits.accepts rfl hfirst)
        hlast
      let assembly := Assembly.accumulating r.header.callId
        (l.pipe.endpoint.assembly.gathered ++ r.stub)
      let l₁ := l.answered ⟨.ok [], { l.pipe.endpoint with assembly }, l.groups⟩ []
      have hl₁ : Receptive l₁ := hl.answered [] hl.room
      obtain ⟨us, bs, hsent, hbs, hreplies⟩ := ih hl₁
        (fun r' hr' => hsendable r' (List.mem_cons_of_mem r hr')) hrest
        (Assembly.awaits_accumulating r.header.callId _)
      have hlink : replied l₁ r.header.callId bs = replied l r.header.callId bs := by
        simp only [l₁, replied, PipeLink.answered, Pipe.answered, List.flatten_nil, List.append_nil]
      rw [hlink] at hsent
      refine ⟨us, bs, (hsend hprocess rfl).trans hsent, hbs, ?_⟩
      rw [← List.append_assoc]
      exact hreplies

/-! ## Replies -/

/-- What follows after one unit has been taken. -/
def goOn {σ : Type} (t : Transport σ) (callId : UInt32) (supply : Nat) :
    Except Error (Option (List UInt8)) × Assembly → Talk σ (List UInt8)
  | (.error e, _) => throw e
  | (.ok (some payload), _) => return payload
  | (.ok none, a) => collect t callId supply a

/-- What is received is decoded and taken. -/
theorem collect_of_receive {σ : Type} {t : Transport σ} {l l' : σ} {data : List UInt8}
    (hreceive : t.receive l = (.ok data, l')) (callId : UInt32) (supply : Nat) (a : Assembly) :
    collect t callId (supply + 1) a (c, l) = (given (Pdu.decode data) >>= fun u =>
      goOn t callId supply (takeReply callId a u)) (c, l') := by
  rw [collect]
  refine (bind_of_ok (onLink_of_ok hreceive)).trans ?_
  cases hdecode : Pdu.decode data with
  | error e => rfl
  | ok u =>
    refine (bind_of_ok (given_of_ok rfl)).trans (Eq.trans ?_ (bind_of_ok (given_of_ok rfl)).symm)
    rcases takeReply callId a u with ⟨_ | _ | _, a⟩ <;> rfl

/-- The next unit in the queue is received and decoded. -/
theorem collect_next {u : Pdu} {b rest : List UInt8} (supply : Nat) {a : Assembly}
    {reply : Except Error (Option (List UInt8)) × Assembly} (hb : u.Written b)
    (hconnected : l.isConnected = true) (hout : l.pipe.outbound = b ++ rest)
    (hreply : takeReply callId a (u.withHeader (Framed.header u.header u.verifier b)) = reply) :
    collect PipeLink.transport callId (supply + 1) a (c, l) =
      goOn PipeLink.transport callId supply reply (c, l.withQueue rest) := by
  have hlink := PipeLink.receive_unit hb hconnected hout
  rw [collect_of_receive hlink, ← hreply]
  exact bind_of_ok (given_of_ok hb.decode)

theorem takeReply_more {r : Response} {a : Assembly} {h : Header}
    (hcall : h.callId = callId) (hflags : h.flags = r.header.flags)
    (haccepts : a.Accepts ⟨callId, r.header.flags, r.stub⟩)
    (hlast : r.header.flags.isLast = false) :
    takeReply callId a ((Pdu.response r).withHeader h) =
      (.ok none, .accumulating callId (a.gathered ++ r.stub)) := by
  have hpush := Assembly.push_of_not_last haccepts hlast
  simp only [takeReply, Pdu.withHeader, Response.fragment, hcall, hflags, bne_self_eq_false,
    Bool.false_eq_true, if_false, hpush]
  rfl

theorem takeReply_last {r : Response} {a : Assembly} {h : Header}
    (hcall : h.callId = callId) (hflags : h.flags = r.header.flags)
    (haccepts : a.Accepts ⟨callId, r.header.flags, r.stub⟩)
    (hlast : r.header.flags.isLast = true) :
    takeReply callId a ((Pdu.response r).withHeader h) =
      (.ok (some (a.gathered ++ r.stub)), .complete callId) := by
  have hpush := Assembly.push_of_last haccepts hlast
  simp only [takeReply, Pdu.withHeader, Response.fragment, hcall, hflags, bne_self_eq_false,
    Bool.false_eq_true, if_false, hpush]
  rfl

/-- Run: the fragments of a response are put together, and nothing is left in the queue. -/
theorem collect_responses {first : Bool} {rs : List Response} {payload : List UInt8}
    {bs : List (List UInt8)} {supply : Nat} {a : Assembly}
    (hrs : Fragments callId first (rs.map Response.fragment) payload)
    (hbs : List.Forall₂ Pdu.Written (rs.map .response) bs) (hawaits : a.Awaits callId first)
    (hconnected : l.isConnected = true) (hout : l.pipe.outbound = bs.flatten)
    (hsupply : bs.length ≤ supply) :
    collect PipeLink.transport callId supply a (c, l) =
      .ok (a.gathered ++ payload) (c, l.withQueue []) := by
  induction rs generalizing first payload bs supply a l with
  | nil => cases hrs
  | cons r rs ih =>
    obtain ⟨b, bs, hb, hbs', rfl⟩ := List.forall₂_cons_left_iff.mp hbs
    obtain ⟨supply, rfl⟩ := Nat.exists_eq_add_one_of_ne_zero
      (show supply ≠ 0 by rw [List.length_cons] at hsupply; omega)
    have hqueue : l.pipe.outbound = b ++ bs.flatten := hout.trans List.flatten_cons
    generalize hfs : (r :: rs).map Response.fragment = fs at hrs
    cases hrs with
    | last hid hfirst hlast =>
      obtain ⟨rfl, hnil⟩ := List.cons.inj hfs
      obtain rfl := List.map_eq_nil_iff.mp hnil
      obtain rfl := List.forall₂_nil_left_iff.mp hbs'
      have haccepts : a.Accepts ⟨callId, r.header.flags, r.stub⟩ := hawaits.accepts rfl hfirst
      exact collect_next supply hb hconnected hqueue (takeReply_last hid rfl haccepts hlast)
    | more hid hfirst hlast hrest =>
      obtain ⟨rfl, rfl⟩ := List.cons.inj hfs
      have haccepts : a.Accepts ⟨callId, r.header.flags, r.stub⟩ := hawaits.accepts rfl hfirst
      have hnext := collect_next (c := c) supply hb hconnected hqueue
        (takeReply_more hid rfl haccepts hlast)
      have hcollect := ih (l := l.withQueue bs.flatten) hrest hbs'
        (Assembly.awaits_accumulating callId (a.gathered ++ r.stub)) hconnected rfl
        (Nat.le_of_succ_le_succ hsupply)
      rw [← List.append_assoc]
      exact hnext.trans hcollect

/-- Whatever the replies tell comes out, and nothing is left in the queue. -/
theorem collect_replies {us : List Pdu} {outcome : Except Error (List UInt8)}
    {bs : List (List UInt8)} {supply : Nat} (hreplies : Replies callId us outcome)
    (hbs : List.Forall₂ Pdu.Written us bs) (hconnected : l.isConnected = true)
    (hout : l.pipe.outbound = bs.flatten) (hsupply : bs.length ≤ supply) :
    collect PipeLink.transport callId supply .awaitingFirst (c, l) =
      given outcome (c, l.withQueue []) := by
  cases hreplies with
  | responses hrs => exact collect_responses hrs hbs rfl hconnected hout hsupply
  | fault f =>
    obtain ⟨b, bs, hb, hbs', rfl⟩ := List.forall₂_cons_left_iff.mp hbs
    obtain rfl := List.forall₂_nil_left_iff.mp hbs'
    obtain ⟨supply, rfl⟩ := Nat.exists_eq_add_one_of_ne_zero
      (show supply ≠ 0 by rw [List.length_singleton] at hsupply; omega)
    exact collect_next supply hb hconnected (hout.trans List.flatten_cons) rfl

end RemoteCall.Client
