import RemoteCall.Pdu.Unit
import RemoteCall.Pipe.Path
import RemoteCall.Service.Server.Operations
import RemoteCall.Service.Workstation.Operations
import RemoteCall.Text.Quoted
/-! The services of a host. No two of them have the same interface UUID. -/

namespace RemoteCall

/-- Services in the order in which they were first registered. -/
structure Registry where
  services : List Service

namespace Registry

def empty : Registry := ⟨[]⟩

/-- Puts a service at the end, or in the place of the one with its UUID. -/
def insertService (s : Service) : List Service → List Service
  | [] => [s]
  | t :: ts => if t.interface.uuid = s.interface.uuid then s :: ts else t :: insertService s ts

def register (r : Registry) (s : Service) : Registry := ⟨insertService s r.services⟩

def ofServices (services : List Service) : Registry := services.foldl register empty

def get? (r : Registry) (uuid : Uuid) : Option Service :=
  r.services.find? (·.interface.uuid == uuid)

/-- The service behind a pipe path, in any case. -/
def byPipe? (r : Registry) (path : String) : Option Service :=
  r.services.find? fun s => sameIgnoringCase s.pipeName (pipeNameOf path)

/-- The service of the first context whose interface UUID is registered. -/
def forProposal? (r : Registry) (p : Proposal) : Option Service :=
  p.contexts.findSome? fun c => r.get? c.abstractSyntax.uuid

/-- The names of all pipes, in ascending order. -/
def pipeNames (r : Registry) : List String :=
  (r.services.map (·.pipeName)).mergeSort (fun a b => decide (a ≤ b))

def size (r : Registry) : Nat := r.services.length

def describe (r : Registry) : String :=
  "ServiceRegistry \x7b pipes: [" ++ String.intercalate ", " (r.pipeNames.map quoted) ++ "] \x7d"

/-- The server service and the workstation service of a host. -/
def default (host : HostIdentity) (shares : List Share) : Registry :=
  ofServices [ServerService.service host shares, WorkstationService.service host]

end Registry

end RemoteCall
