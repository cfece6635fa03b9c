/-! Names of pipes within paths. -/

namespace RemoteCall

/-- What is left of a path after `pipe\`, in any case, if it starts with it. -/
def afterPipe? : List Char → Option (List Char)
  | p :: i :: q :: e :: '\\' :: rest =>
    if [p, i, q, e].map Char.toLower = ['p', 'i', 'p', 'e'] then some rest else none
  | _ => none

/-- Drops all leading backslashes, then one `pipe\`. -/
def stripPipePath (cs : List Char) : List Char :=
  let name := cs.dropWhile (· == '\\')
  (afterPipe? name).getD name

/-- The name of a pipe, from its path. -/
def pipeNameOf (path : String) : String := String.ofList (stripPipePath path.toList)

end RemoteCall
