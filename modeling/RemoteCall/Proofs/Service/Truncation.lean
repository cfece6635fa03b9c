import RemoteCall.Proofs.Ndr.Truncation
import RemoteCall.Service.Server.Message
import RemoteCall.Service.Workstation.Message

/-! No construct and no message of a service is read from less than its own bytes, or from more
(`reads_failClosed`). -/

namespace RemoteCall

open Ndr

theorem exact_dword : Exact SamePosition readU32 := exact_readU32 samePosition_overlooks

namespace ServerService

/-- After an unknown level the message is at its end. -/
theorem exact_shareEnumRequest : Exact SamePosition (Message.read : Read ShareEnumRequest) := by
  refine (exact_readOptional Text).bind fun serverName => ?_
  refine (exact_readAs ShareListing).bind fun info => ?_
  have hknown : Exact SamePosition (do
      let preferredLength ← readU32
      return (⟨serverName, info, preferredLength, ← readOptional UInt32⟩ : ShareEnumRequest)) :=
    exact_dword.bind fun _ => (exact_readOptional UInt32).map
  cases info with
  | unknown level => exact .pure _
  | level0 info => exact hknown
  | level1 info => exact hknown

theorem exact_shareEnumResponse : Exact SamePosition (Message.read : Read ShareEnumResponse) :=
  (exact_readAs ShareListing).bind fun _ => exact_dword.bind fun _ =>
    (exact_readOptional UInt32).bind fun _ => exact_dword.map

theorem exact_shareInfoRequest : Exact SamePosition (Message.read : Read ShareInfoRequest) :=
  (exact_readOptional Text).bind fun _ => (exact_readAs Text).bind fun _ => exact_dword.map

theorem exact_shareInfoResponse : Exact SamePosition (Message.read : Read ShareInfoResponse) :=
  (exact_readAs ShareInfo).bind fun _ => exact_dword.map

theorem exact_serverInfoRequest : Exact SamePosition (Message.read : Read ServerInfoRequest) :=
  (exact_readOptional Text).bind fun _ => exact_dword.map

theorem exact_serverInfoResponse : Exact SamePosition (Message.read : Read ServerInfoResponse) :=
  (exact_readAs ServerInfo).bind fun _ => exact_dword.map

end ServerService

namespace WorkstationService

theorem exact_infoRequest : Exact SamePosition (Message.read : Read InfoRequest) :=
  (exact_readOptional Text).bind fun _ => exact_dword.map

theorem exact_infoResponse : Exact SamePosition (Message.read : Read InfoResponse) :=
  (exact_readAs WorkstationInfo).bind fun _ => exact_dword.map

end WorkstationService

open ServerService in
/-- **Parameter data is read to its end or not at all.** Whatever the layout and its grammar are, and
for every type and every message: a read that succeeds has taken a first part of the data, its result
is the same whatever follows this part, and from any less of it the read fails, because of the data
and at an offset that is not behind them. -/
theorem reads_failClosed :
    (∀ (g : Grammar) (l : Layout), FailsClosed (readConstruct g l)) ∧
    (∀ (α : Type) [Marshal α], FailsClosed (readAs α)) ∧
    Message.FailsClosed ShareEnumRequest ∧ Message.FailsClosed ShareEnumResponse ∧
    Message.FailsClosed ShareInfoRequest ∧ Message.FailsClosed ShareInfoResponse ∧
    Message.FailsClosed ServerInfoRequest ∧ Message.FailsClosed ServerInfoResponse ∧
    Message.FailsClosed WorkstationService.InfoRequest ∧
    Message.FailsClosed WorkstationService.InfoResponse :=
  ⟨fun _ l => (exact_readConstruct l).failsClosed, fun α _ => (exact_readAs α).failsClosed,
    .of_exact exact_shareEnumRequest, .of_exact exact_shareEnumResponse,
    .of_exact exact_shareInfoRequest, .of_exact exact_shareInfoResponse,
    .of_exact exact_serverInfoRequest, .of_exact exact_serverInfoResponse,
    .of_exact WorkstationService.exact_infoRequest,
    .of_exact WorkstationService.exact_infoResponse⟩

namespace ServerService

/-- Asks a host whose name is not given for level 101, with three bytes behind. -/
def sampleData : List UInt8 := [0, 0, 0, 0, 101, 0, 0, 0, 9, 9, 9]

end ServerService

open ServerService in
theorem reads_failClosed_sampleData :
    Message.decode ServerInfoRequest sampleData = .ok ⟨none, 101⟩ ∧
    Message.decode ServerInfoRequest (sampleData.take 8 ++ [1]) = .ok ⟨none, 101⟩ ∧
    ∀ k, k < 8 → ∃ offset defect, Message.decode ServerInfoRequest (sampleData.take k) =
      .error (.malformedData offset defect) ∧ offset ≤ k := by
  have hread : ∃ d, (Message.read : Read ServerInfoRequest) (.ofBytes sampleData) =
      .ok ⟨none, 101⟩ d ∧ d.position = 8 := ⟨_, rfl, rfl⟩
  obtain ⟨d, hread, hposition⟩ := hread
  obtain ⟨-, -, -, -, -, -, hclosed, -⟩ := reads_failClosed
  obtain ⟨hdecode, -, hextended, hcut⟩ := hclosed sampleData ⟨none, 101⟩ d hread
  rw [hposition] at hextended hcut
  exact ⟨hdecode, (hextended [1]).1, hcut⟩

end RemoteCall
