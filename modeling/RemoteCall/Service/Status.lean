/-! Status words at the end of a response. -/

namespace RemoteCall

inductive Status
  | success
  | accessDenied
  | invalidParameter
  | invalidLevel
  | moreData
  | netNameNotFound
  deriving DecidableEq, Repr

namespace Status

def code : Status → UInt32
  | success => 0
  | accessDenied => 5
  | invalidParameter => 87
  | invalidLevel => 124
  | moreData => 234
  | netNameNotFound => 2310

def ofCode? (n : UInt32) : Option Status :=
  [success, accessDenied, invalidParameter, invalidLevel, moreData, netNameNotFound].find?
    (·.code == n)

def name : Status → String
  | success => "Success"
  | accessDenied => "AccessDenied"
  | invalidParameter => "InvalidParameter"
  | invalidLevel => "InvalidLevel"
  | moreData => "MoreData"
  | netNameNotFound => "NetNameNotFound"

def isSuccess (s : Status) : Bool := s == success

end Status

end RemoteCall
