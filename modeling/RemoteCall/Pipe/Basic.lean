import RemoteCall.Endpoint
import RemoteCall.Stream.Front
/-! One open instance of a pipe. What is written to it is gathered until it holds a whole unit, which
is processed at once; the answers queue up until they are read. -/

namespace RemoteCall

structure Pipe where
  id : Nat
  name : String
  maxMessageSize : Nat
  endpoint : Endpoint
  /-- Bytes from the client that are not yet a whole unit. -/
  inbound : List UInt8
  /-- Units for the client that are not yet read. -/
  outbound : List UInt8

namespace Pipe

def of (id : Nat) (name : String) (e : Endpoint) : Pipe := ⟨id, name, 65536, e, [], []⟩

/-- Processes all whole units that came in. A unit is gone from the buffer before it is processed. -/
def drain (p : Pipe) (g : GroupAllocator) : Except Error Unit × Pipe × GroupAllocator :=
  match _h : front p.inbound with
  | .incomplete => (.ok (), p, g)
  | .badLabel e => (.error e, p, g)
  | .tooShort n => (.error (Front.tooShortError n), { p with inbound := [] }, g)
  | .unit bytes rest =>
    let t := p.endpoint.process g bytes
    match t.answers with
    | .error e => (.error e, { p with inbound := rest, endpoint := t.endpoint }, t.groups)
    | .ok answers =>
      drain { p with
        inbound := rest
        endpoint := t.endpoint
        outbound := p.outbound ++ answers.flatten } t.groups
termination_by p.inbound.length
decreasing_by exact length_rest_lt_of_front_unit _h

/-- Takes bytes from the client and tells how many. -/
def write (p : Pipe) (g : GroupAllocator) (data : List UInt8) :
    Except Error Nat × Pipe × GroupAllocator :=
  if data.length > p.maxMessageSize then (.error (.invalidParameter .messageTooLarge), p, g)
  else
    let (result, p, g) := drain { p with inbound := p.inbound ++ data } g
    (result.map fun _ => data.length, p, g)

def peek (p : Pipe) (max : Nat) : List UInt8 := p.outbound.take max

def read (p : Pipe) (max : Nat) : List UInt8 × Pipe :=
  (p.peek max, { p with outbound := p.outbound.drop max })

/-- The number of bytes that wait to be read. -/
def available (p : Pipe) : Nat := p.outbound.length

/-- The next whole unit. -/
def readUnit (p : Pipe) : Option (List UInt8) × Pipe :=
  match front p.outbound with
  | .unit bytes rest => (some bytes, { p with outbound := rest })
  | _ => (none, p)

/-- A write and, if it succeeds, a read. -/
def transceive (p : Pipe) (g : GroupAllocator) (data : List UInt8) (max : Nat) :
    Except Error (List UInt8) × Pipe × GroupAllocator :=
  match p.write g data with
  | (.error e, p, g) => (.error e, p, g)
  | (.ok _, p, g) =>
    let (bytes, p) := p.read max
    (.ok bytes, p, g)

/-- Drops everything in both directions. -/
def discard (p : Pipe) : Pipe := { p with inbound := [], outbound := [] }

end Pipe

end RemoteCall
