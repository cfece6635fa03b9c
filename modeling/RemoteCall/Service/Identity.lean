/-! What a host tells about itself. -/

namespace RemoteCall

structure HostIdentity where
  serverName : String := "RUST-RPC-SERVER"
  comment : String := "Rust RPC Server"
  domain : String := "WORKGROUP"
  major : UInt32 := 10
  minor : UInt32 := 0
  deriving DecidableEq, Repr

/-- The platform that every host claims to be. -/
def platformNt : UInt32 := 500

/-- A workstation and a server, of that platform. -/
def serverType : UInt32 := 0x00001003

end RemoteCall
