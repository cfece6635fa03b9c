import RemoteCall.Proofs.Endpoint.Calls
import RemoteCall.Proofs.Endpoint.Steps

/-! What an endpoint makes of a bind (`Endpoint.process_bind_eq`), and when the acknowledgement of it
can be written (`Endpoint.bindAck_written`). -/

namespace RemoteCall

theorem le_toNat_max (x y : UInt16) : x.toNat ≤ (max x y).toNat ∧ y.toNat ≤ (max x y).toNat := by
  change x.toNat ≤ (if x ≤ y then y else x).toNat ∧ y.toNat ≤ (if x ≤ y then y else x).toNat
  split
  · rename_i h
    exact ⟨UInt16.le_iff_toNat_le.mp h, Nat.le_refl _⟩
  · rename_i h
    rw [UInt16.le_iff_toNat_le] at h
    omega

theorem Acknowledgement.length_addressBytes_le (address : String) :
    (addressBytes address).length ≤ address.utf8ByteSize + 1 := by
  unfold addressBytes
  split
  · exact Nat.zero_le _
  · rw [List.length_append, List.length_singleton]
    exact Nat.le_refl _

/-- An acknowledgement of so many answers and such an address fits a unit. -/
theorem Acknowledgement.exists_written {a : Acknowledgement} {u : Pdu}
    (hu : u = .bindAck a ∨ u = .alterContextResponse a) (hkind : u.header.kind ∈ u.kinds)
    (hstandard : a.header.representation = .standard) (hauth : a.auth = [])
    (hcount : a.answers.length < 256)
    (hlength : a.address.utf8ByteSize + 24 * a.answers.length < 65502) : ∃ b, u.Written b := by
  have haddress := length_addressBytes_le a.address
  have hsize : Header.size = 16 := rfl
  have hunit : Header.size + (a.body Representation.standard.order).length + a.auth.length
      < 65536 := by
    have hbody := length_body_le Representation.standard.order a
    rw [hauth, List.length_nil]
    omega
  rcases hu with rfl | rfl <;>
    exact Pdu.exists_written hkind ⟨hcount, by omega⟩ hstandard hunit

namespace Endpoint

variable {e : Endpoint} {g : GroupAllocator} {s : Service} {p : Proposal} {b : List UInt8}

/-- A bind can be acknowledged when the address of its service leaves room for the answers. -/
theorem bindAck_written (hcount : p.contexts.length < 256)
    (hlength : ∀ s, e.boundService p = some s →
      s.pipeName.utf8ByteSize + 24 * p.contexts.length < 65496) :
    ∃ b, (Pdu.bindAck (e.bindAck g p)).Written b := by
  have hanswers : (e.bindAck g p).answers.length = p.contexts.length := List.length_map _
  refine Acknowledgement.exists_written (.inl rfl) (List.mem_singleton.mpr rfl) rfl rfl ?_ ?_
  · rw [hanswers]
    exact hcount
  · rw [hanswers]
    cases hservice : e.boundService p with
    | none =>
      have haddress : (e.bindAck g p).address = "" := by
        rw [bindAck, hservice]
        rfl
      have hempty : "".utf8ByteSize = 0 := rfl
      rw [haddress]
      omega
    | some s =>
      have haddress : (e.bindAck g p).address = "\\PIPE\\" ++ s.pipeName := by
        rw [bindAck, hservice]
        rfl
      have hs := hlength s hservice
      have hprefix : "\\PIPE\\".utf8ByteSize = 6 := by decide
      rw [haddress, String.utf8ByteSize_append, hprefix]
      omega

/-- What comes of a bind, whether its acknowledgement can be written or not. -/
theorem process_bind_eq (hb : (Pdu.bind p).Written b) (hmajor : p.header.major = Header.version) :
    e.process g b = ⟨(Action.reply (.bindAck (e.bindAck g p))).perform (e.bound g p).maxTransmit,
      e.bound g p, (Acknowledgement.ofBind g (e.boundService p) p).2⟩ := by
  have hjudge : e.judge g b = .ok (e.judgeBind g p) := judge_written hb hmajor
  rw [judgeBind_of_spoken hmajor] at hjudge
  exact process_of_judge hjudge

end Endpoint

end RemoteCall
