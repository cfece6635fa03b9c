import RemoteCall.Uuid
/-! Identifiers of interfaces and of transfer encodings: a UUID and a version. -/

namespace RemoteCall

/-- The version holds the major number in its low half and the minor number in its high half. -/
structure SyntaxId where
  uuid : Uuid
  version : UInt32
  deriving DecidableEq, Repr

namespace SyntaxId

/-- The identifier that a context carries when it is not accepted. -/
def nil : SyntaxId := ⟨Uuid.nil, 0⟩

def ofVersions (uuid : Uuid) (major minor : UInt16) : SyntaxId :=
  ⟨uuid, UInt32.ofNat (major.toNat + 65536 * minor.toNat)⟩

def major (s : SyntaxId) : UInt16 := UInt16.ofNat s.version.toNat
def minor (s : SyntaxId) : UInt16 := UInt16.ofNat (s.version.toNat / 65536)

def encode (o : ByteOrder) (s : SyntaxId) : List UInt8 := s.uuid.encode o ++ o.word32 s.version

@[simp] theorem length_encode (o : ByteOrder) (s : SyntaxId) : (s.encode o).length = 20 := by
  simp [encode]

private def ndrUuid : Uuid := ⟨0x8a885d04, 0x1ceb, 0x11c9, 0x9fe808002b104860⟩

/-- The NDR transfer encoding, version 1. -/
def ndr1 : SyntaxId := ⟨ndrUuid, 1⟩

/-- The NDR transfer encoding, version 2. -/
def ndr2 : SyntaxId := ⟨ndrUuid, 2⟩

/-- Bind time feature negotiation, offered in the place of a transfer encoding. -/
def featureNegotiation : SyntaxId := ⟨⟨0x6cb71c2c, 0x9812, 0x4540, 0x0300000000000000⟩, 1⟩

/-- The last eight bytes of the identifier carry the features, so only the first eight count. -/
def isFeatureNegotiation (s : SyntaxId) : Bool :=
  s.uuid.timeLow == featureNegotiation.uuid.timeLow
    && s.uuid.timeMid == featureNegotiation.uuid.timeMid
    && s.uuid.timeHigh == featureNegotiation.uuid.timeHigh

/-- What a service speaks unless it says otherwise. -/
def supported : List SyntaxId := [ndr2, ndr1]

end SyntaxId

/-- An interface that a service implements. -/
structure Interface where
  uuid : Uuid
  major : UInt16
  minor : UInt16
  name : String
  deriving DecidableEq, Repr

namespace Interface

/-- What a client binds with. -/
def id (i : Interface) : SyntaxId := SyntaxId.ofVersions i.uuid i.major i.minor

/-- Shares and server information. -/
def serverService : Interface := ⟨⟨0x4B324FC8, 0x1670, 0x01D3, 0x12785A47BF6EE188⟩, 3, 0, "SRVSVC"⟩

/-- Identity of a workstation. -/
def workstationService : Interface :=
  ⟨⟨0x6BFFD098, 0xA112, 0x3610, 0x983346C3F87E345A⟩, 1, 0, "WKSSVC"⟩

end Interface

end RemoteCall
