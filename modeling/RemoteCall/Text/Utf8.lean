/-! Strings as UTF-8 bytes. -/

namespace RemoteCall.Utf8

def encode (s : String) : List UInt8 := s.toUTF8.data.toList

def decode? (bs : List UInt8) : Option String := String.fromUTF8? ⟨bs.toArray⟩

end RemoteCall.Utf8
