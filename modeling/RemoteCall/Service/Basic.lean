import RemoteCall.Error
import RemoteCall.Pdu.Codes
import RemoteCall.SyntaxId
/-! A service: an interface, the pipe it listens on, what it speaks, and its operations by number. -/

namespace RemoteCall

/-- An operation takes the parameters of a request and gives those of the response. -/
abbrev Handler := List UInt8 → Except Error (List UInt8)

/-- Operations in ascending order of their numbers. -/
structure OperationTable where
  entries : List (UInt16 × Handler)

namespace OperationTable

def empty : OperationTable := ⟨[]⟩

/-- Puts an entry at its place, instead of one with the same number. -/
def insertEntry (opnum : UInt16) (handler : Handler) :
    List (UInt16 × Handler) → List (UInt16 × Handler)
  | [] => [(opnum, handler)]
  | e :: es =>
    if opnum < e.1 then (opnum, handler) :: e :: es
    else if opnum = e.1 then (opnum, handler) :: es
    else e :: insertEntry opnum handler es

def register (t : OperationTable) (opnum : UInt16) (handler : Handler) : OperationTable :=
  ⟨insertEntry opnum handler t.entries⟩

def get? (t : OperationTable) (opnum : UInt16) : Option Handler :=
  (t.entries.find? (·.1 == opnum)).map (·.2)

def contains (t : OperationTable) (opnum : UInt16) : Bool := (t.get? opnum).isSome

def opnums (t : OperationTable) : List UInt16 := t.entries.map (·.1)

def describe (t : OperationTable) : String :=
  let numbers := t.opnums.map fun n => toString n.toNat
  "OperationTable \x7b opnums: [" ++ String.intercalate ", " numbers ++ "] \x7d"

end OperationTable

structure Service where
  interface : Interface
  /-- The name of the pipe, without what stands before it in a path. -/
  pipeName : String
  transferSyntaxes : List SyntaxId
  operations : OperationTable

namespace Service

def name (s : Service) : String := s.interface.name

/-- Runs an operation on the parameters of a request. -/
def dispatch (s : Service) (opnum : UInt16) : Handler := fun stub =>
  match s.operations.get? opnum with
  | some handler => handler stub
  | none => .error (.unsupportedOperation opnum)

end Service

/-- What a client is told about an operation that failed. -/
def FaultStatus.ofError : Error → FaultStatus
  | .unsupportedOperation _ => .opRangeError
  | _ => .ndrFault

end RemoteCall
