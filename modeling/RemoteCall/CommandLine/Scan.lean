import RemoteCall.CommandLine.Usage
/-! Going through the arguments of a command. An option and its value wait for the argument after
them before they are put into the settings, so what is wrong with them is told only then, and not at
all when that argument is unknown. -/

namespace RemoteCall.CommandLine

/-- An option or an operand, and what its value does to the settings. -/
structure Parameter (α : Type) where
  name : String
  short : Option Char := none
  repeatable : Bool := false
  required : Bool := false
  put : String → α → Option α

/-- A command: its options, its operands in order, and the names of its subcommands. -/
structure Command (α : Type) where
  options : List (Parameter α)
  operands : List (Parameter α) := []
  subcommands : List String := []

/-- A parameter whose value, if it has come, is not yet in the settings. -/
structure Waiting (α : Type) where
  parameter : Parameter α
  value : Option String

structure Progress (α : Type) where
  settings : α
  /-- The names of what was put into the settings. -/
  given : List String
  waiting : Option (Waiting α)
  operands : List (Parameter α)
  /-- Whether a double hyphen was passed, after which there are no options. -/
  trailing : Bool

variable {α : Type}

namespace Progress

def start (c : Command α) (defaults : α) : Progress α := ⟨defaults, [], none, c.operands, false⟩

def awaitsValue (p : Progress α) : Bool := p.waiting.any (·.value.isNone)

/-- Puts a value into the settings. -/
def apply (p : Progress α) (o : Parameter α) (value : String) : Except UsageError (Progress α) :=
  if !o.repeatable && p.given.contains o.name then .error .repeated
  else match o.put value p.settings with
    | some settings => .ok { p with settings, given := o.name :: p.given }
    | none => .error .badValue

/-- Puts what waits into the settings. -/
def resolve (p : Progress α) : Except UsageError (Progress α) :=
  match p.waiting with
  | none => .ok p
  | some ⟨_, none⟩ => .error .missingValue
  | some ⟨o, some value⟩ => { p with waiting := none }.apply o value

/-- Meets an option, whose value may be part of the same argument. -/
def meet (p : Progress α) (o : Parameter α) (attached : Option String) :
    Except UsageError (Progress α) := do
  let p ← p.resolve
  match attached with
  | some value => p.apply o value
  | none => return { p with waiting := some ⟨o, none⟩ }

def help (p : Progress α) : Except UsageError (Progress α) := do
  let _ ← p.resolve
  throw .help

end Progress

namespace Command

/-- What is wrong with an argument that there is no place for. -/
def surplus (c : Command α) (p : Progress α) (argument : String) : UsageError :=
  if c.subcommands.isEmpty || p.trailing && c.subcommands.contains argument then .unknownArgument
  else .unknownCommand

/-- What follows two hyphens. -/
def long (c : Command α) (p : Progress α) (body : List Char) : Except UsageError (Progress α) :=
  let (name, rest) := body.span (· != '=')
  let attached := if rest.isEmpty then none else some (String.ofList (rest.drop 1))
  if String.ofList name = "help" then
    if attached.isSome then .error .surplusValue else p.help
  else match c.options.find? (·.name == String.ofList name) with
    | some o => p.meet o attached
    | none => .error .unknownArgument

/-- What follows a single hyphen: a letter, and the value if there is more. -/
def short (c : Command α) (p : Progress α) (letter : Char) (rest : List Char) :
    Except UsageError (Progress α) :=
  if letter = 'h' then p.help
  else match c.options.find? (·.short == some letter) with
    | some o =>
      match rest with
      | [] => p.meet o none
      | '=' :: value => p.meet o (some (String.ofList value))
      | value => p.meet o (some (String.ofList value))
    | none => .error .unknownArgument

/-- An argument that is no option. -/
def operand (c : Command α) (p : Progress α) (argument : String) : Except UsageError (Progress α) :=
  match p.operands with
  | [] => .error (c.surplus p argument)
  | o :: os => do
    let p ← p.resolve
    return { p with waiting := some ⟨o, some argument⟩, operands := os }

/-- One argument. What starts with a hyphen is an option even where a value is expected, unless
the hyphen stands alone. -/
def step (c : Command α) (p : Progress α) (argument : String) : Except UsageError (Progress α) :=
  if p.trailing then c.operand p argument
  else match argument.toList, p.waiting with
    | ['-', '-'], _ => .ok { p with trailing := true }
    | '-' :: '-' :: body, _ => c.long p body
    | '-' :: letter :: rest, _ => c.short p letter rest
    | _, some ⟨o, none⟩ => .ok { p with waiting := some ⟨o, some argument⟩ }
    | _, _ => c.operand p argument

/-- Goes through the arguments up to a subcommand, and gives it with the arguments after it. -/
def scan (c : Command α) (p : Progress α) :
    List String → Except UsageError (Progress α × Option (String × List String))
  | [] => .ok (p, none)
  | argument :: rest =>
    if !p.trailing && !p.awaitsValue && c.subcommands.contains argument then
      .ok (p, some (argument, rest))
    else do
      let p ← c.step p argument
      c.scan p rest

/-- The settings, when nothing that is required is missing. -/
def complete (c : Command α) (p : Progress α) : Except UsageError α :=
  if (c.options ++ c.operands).all fun o => !o.required || p.given.contains o.name then
    .ok p.settings
  else .error .missingRequired

/-- The settings of a command without subcommands. -/
def settings (c : Command α) (defaults : α) (arguments : List String) : Except UsageError α := do
  let (p, _) ← c.scan (.start c defaults) arguments
  c.complete (← p.resolve)

end Command

end RemoteCall.CommandLine
