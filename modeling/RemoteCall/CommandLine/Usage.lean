/-! Why a command line is not run. -/

namespace RemoteCall.CommandLine

inductive UsageError
  | unknownArgument
  /-- An option without its value. -/
  | missingValue
  /-- A value for an option that has none. -/
  | surplusValue
  /-- A value that cannot be read. -/
  | badValue
  | repeated
  | missingRequired
  | unknownCommand
  | missingCommand
  /-- Help was asked for. -/
  | help
  /-- Nothing was asked for at all. -/
  | helpForNothing
  deriving DecidableEq, Repr

def UsageError.name : UsageError → String
  | unknownArgument => "UnknownArgument"
  | missingValue => "InvalidValue"
  | surplusValue => "TooManyValues"
  | badValue => "ValueValidation"
  | repeated => "ArgumentConflict"
  | missingRequired => "MissingRequiredArgument"
  | unknownCommand => "InvalidSubcommand"
  | missingCommand => "MissingSubcommand"
  | help => "DisplayHelp"
  | helpForNothing => "DisplayHelpOnMissingArgumentOrSubcommand"

end RemoteCall.CommandLine
