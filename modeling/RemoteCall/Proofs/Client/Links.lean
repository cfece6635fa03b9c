import RemoteCall.Proofs.Client.Faults
import RemoteCall.Proofs.Pipe
import RemoteCall.Transport.Direct
import RemoteCall.Transport.Tcp

/-! No link of this library makes up faults. An endpoint that is run by what is sent fails only
because of the bytes that came in or of an answer that cannot be written
(`Endpoint.process_failsOnly`), and what else goes wrong with a link is an error of its own. -/

namespace RemoteCall

/-! ## Endpoints -/

theorem Action.encodeAll_failsOnly {α : Type} {P : Error → Prop}
    {encode : α → Except Error (List UInt8)} (hencode : ∀ a, FailsOnly P (encode a)) (as : List α) :
    FailsOnly P (encodeAll encode as) := by
  induction as with
  | nil => exact failsOnly_ok []
  | cons a as ih => exact (hencode a).bind fun _ => ih.bind fun _ => failsOnly_ok _

/-- Whatever goes wrong with an operation is told in a fault, which can go wrong only as a unit. -/
theorem Action.perform_failsOnly (maxTransmit : UInt16) (action : Action) :
    FailsOnly Error.IsUnwritable (action.perform maxTransmit) := by
  cases action with
  | silent => exact failsOnly_ok []
  | reply u => exact u.encode_failsOnly.bind fun _ => failsOnly_ok _
  | execute call =>
    simp only [perform]
    cases call.service.dispatch call.opnum call.stub with
    | ok payload =>
      exact (Response.fragments_failsOnly _ _ payload maxTransmit).bind
        (encodeAll_failsOnly Response.encode_failsOnly)
    | error e => exact (failure call e).encode_failsOnly.bind fun _ => failsOnly_ok _

namespace Endpoint

theorem judge_failsOnly (e : Endpoint) (g : GroupAllocator) (data : List UInt8) :
    BlamesBytes (e.judge g data) := by
  refine (Header.blamesBytes_parse data).bind fun h => ?_
  split
  · exact failsOnly_ok _
  · exact (Pdu.blamesBytes_decode data).bind fun _ => failsOnly_ok _

theorem process_failsOnly (e : Endpoint) (g : GroupAllocator) (data : List UInt8) :
    FailsOnly Error.IsUnwritable (e.process g data).answers := by
  unfold process turn
  cases hjudge : e.judge g data with
  | error err => exact failsOnly_error (.inl (judge_failsOnly e g data err hjudge))
  | ok judged => exact judged.1.perform_failsOnly judged.2.1.maxTransmit

end Endpoint

/-! ## Pipes -/

theorem IsMalformed.isUnwritable {bytes : List UInt8} {e : Error} (h : IsMalformed bytes e) :
    e.IsUnwritable := by
  obtain ⟨_, _, rfl⟩ := h.malformedPdu
  exact .inl rfl

/-- Run: by induction on the bytes that wait, over one unit after another. -/
theorem Pipe.drain_failsOnly (p : Pipe) (g : GroupAllocator) :
    FailsOnly Error.IsUnwritable (p.drain g).1 := by
  induction hlength : p.inbound.length using Nat.strongRecOn generalizing p g with
  | ind n ih =>
    have hmalformed : ∀ e, (front p.inbound).error? = some e →
        FailsOnly Error.IsUnwritable (p.drain g).1 := by
      intro e he
      obtain ⟨_, hdrain⟩ := drain_of_malformed (g := g) he
      rw [hdrain]
      exact failsOnly_error (front_error?_eq_some_iff.mp he).isUnwritable
    cases hfront : front p.inbound with
    | incomplete =>
      rw [drain_of_incomplete hfront]
      exact failsOnly_ok ()
    | badLabel e => exact hmalformed e (by rw [hfront]; rfl)
    | tooShort n => exact hmalformed _ (by rw [hfront]; rfl)
    | unit u rest =>
      cases hanswers : (p.endpoint.process g u).answers with
      | error e =>
        rw [drain_of_unit_error hfront hanswers]
        exact failsOnly_error (p.endpoint.process_failsOnly g u e hanswers)
      | ok answers =>
        rw [drain_of_unit hfront hanswers]
        exact ih _ (hlength ▸ length_rest_lt_of_front_unit hfront) _ _ rfl

theorem Pipe.write_failsOnly (p : Pipe) (g : GroupAllocator) (data : List UInt8) :
    FailsOnly Error.IsUnwritable (p.write g data).1 := by
  unfold write
  split
  · exact failsOnly_error (Error.isUnwritable_parameter _)
  · exact (drain_failsOnly _ g).map _

/-! ## Links -/

/-- A link that makes up no faults whatever state it is in. -/
theorem Transport.faultless_of {σ : Type} {t : Transport σ}
    (hsend : ∀ data l, FailsOnly (¬ ·.IsFault) (t.send data l).1)
    (hreceive : ∀ l, FailsOnly (¬ ·.IsFault) (t.receive l).1) : t.Faultless fun _ => True where
  send data l _ := ⟨trivial, hsend data l⟩
  receive l _ := ⟨trivial, hreceive l⟩

theorem Error.not_isFault_notConnected (defect : LinkDefect) :
    ¬ (Error.notConnected defect).IsFault := by
  rintro ⟨_, ⟨⟩⟩

theorem DirectLink.faultless_transport : transport.Faultless fun _ => True := by
  refine Transport.faultless_of (fun data l => ?_) (fun l => ?_)
  · have hfails := l.endpoint.process_failsOnly l.groups data
    simp only [transport, send]
    split
    · exact failsOnly_ok ()
    · rename_i e he
      exact failsOnly_error (hfails e he).not_isFault
  · simp only [transport, receive]
    split
    · refine failsOnly_error ?_
      rintro ⟨_, ⟨⟩⟩
    · exact failsOnly_ok _

theorem PipeLink.faultless_transport : transport.Faultless fun _ => True := by
  refine Transport.faultless_of (fun data l => ?_) (fun l => ?_)
  · simp only [transport, send]
    split
    · have hfails := l.pipe.write_failsOnly l.groups data
      exact (hfails.mono fun _ he => he.not_isFault).map _
    · exact failsOnly_error (Error.not_isFault_notConnected _)
  · simp only [transport, receive]
    split
    · split
      · exact failsOnly_ok _
      · refine failsOnly_error ?_
        rintro ⟨_, ⟨⟩⟩
    · exact failsOnly_error (Error.not_isFault_notConnected _)

/-- A connection that has gone wrong reads what has arrived as malformed, or waits in vain. -/
theorem TcpLink.faultless_transport : transport.Faultless fun _ => True := by
  refine Transport.faultless_of (fun data l => ?_) (fun l => ?_)
  · simp only [transport, send]
    split
    · exact failsOnly_error (Error.not_isFault_notConnected _)
    · exact failsOnly_ok ()
  · have hmalformed : ∀ e, (front l.arrived).error? = some e → ¬ e.IsFault := fun e he =>
      (front_error?_eq_some_iff.mp he).isUnwritable.not_isFault
    simp only [transport, receive]
    cases l.connection with
    | none => exact failsOnly_error (Error.not_isFault_notConnected _)
    | some c =>
      dsimp only
      cases hfront : front l.arrived with
      | unit u rest => exact failsOnly_ok u
      | badLabel e => exact failsOnly_error (hmalformed e (by rw [hfront]; rfl))
      | tooShort n => exact failsOnly_error (hmalformed _ (by rw [hfront]; rfl))
      | incomplete =>
        refine failsOnly_error ?_
        split <;> rintro ⟨_, ⟨⟩⟩

end RemoteCall
