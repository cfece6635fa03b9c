import RemoteCall.Transport.Basic
/-! A link that keeps what was sent over it, also what could not be sent. -/

namespace RemoteCall

structure Recorded (σ : Type) where
  link : σ
  sent : List (List UInt8)

def Transport.recorded {σ : Type} (t : Transport σ) : Transport (Recorded σ) where
  kind := t.kind
  send data l :=
    let (result, link) := t.send data l.link
    (result, ⟨link, l.sent ++ [data]⟩)
  receive l :=
    let (result, link) := t.receive l.link
    (result, { l with link })
  close l :=
    let (result, link) := t.close l.link
    (result, { l with link })
  isConnected l := t.isConnected l.link
  supply l := t.supply l.link
  supply_lt := by
    intro l l' bytes h
    obtain ⟨hr, rfl⟩ := Prod.mk.inj h
    exact t.supply_lt (Prod.ext hr rfl)

end RemoteCall
