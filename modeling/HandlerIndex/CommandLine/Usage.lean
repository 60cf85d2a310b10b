import HandlerIndex.CommandLine.Arguments

/-!
The help of the command line: what the program says of itself, its version, and how it is used. Left
out are the hints after a mistake, and colours.
-/
namespace HandlerIndex.CommandLine

def versionText : String := applicationName ++ " 0.1.0\n"

def description : String := "Persistent event-to-subscriber index for Shopware PHP plugins"

def CommandName.about : CommandName → String
  | .index => "Index every PHP file in the workspace"
  | .lookup => "Show the handlers registered for an event"
  | .events => "List indexed events, optionally filtered by name"
  | .status => "Print index statistics"
  | .watch => "Index the workspace, then keep it current until interrupted"
  | .clear => "Drop every indexed entry"

def rootRow : String × String := ("    --root <ROOT>", "Workspace root to index [default: .]")

def databaseRow : String × String :=
  ("    --db <DB>", "Index database, defaults to one per workspace in the user cache dir")

def helpRow : String × String := ("-h, --help", "Print help")

def CommandName.optionRows : CommandName → List (String × String)
  | .lookup => [("    --json", ""), rootRow, databaseRow, helpRow]
  | .events =>
    [("    --limit <LIMIT>", "[default: 50]"), rootRow, databaseRow,
      ("    --min-files <MIN_FILES>", "Only events subscribed from at least this many files"),
      helpRow]
  | _ => [rootRow, databaseRow, helpRow]

def CommandName.wordRows : CommandName → List (String × String)
  | .lookup => [("<EVENT>", "Event identifier, e.g. Enlight_Bootstrap_InitResource_swagcoupons")]
  | .events => [("[PATTERN]", "")]
  | _ => []

def columns (title : String) (rows : List (String × String)) : String :=
  let width := (rows.map (·.1.length)).foldl max 0
  let line := fun (row : String × String) =>
    "  " ++ row.1 ++ String.ofList (List.replicate (width - row.1.length) ' ') ++ "  " ++
      row.2 ++ "\n"
  "\n" ++ title ++ ":\n" ++ String.join (rows.map line)

def commandHelp (command : CommandName) : String :=
  let words := command.wordRows
  command.about ++ "\n\nUsage: " ++ applicationName ++ " " ++ command.text ++ " [OPTIONS]"
    ++ String.join (words.map fun row => " " ++ row.1) ++ "\n"
    ++ (if words.isEmpty then "" else columns "Arguments" words)
    ++ columns "Options" command.optionRows

def helpAbout : String := "Print this message or the help of the given subcommand(s)"

def helpOnHelp : String :=
  helpAbout ++ "\n\nUsage: " ++ applicationName ++ " help [COMMAND]...\n"
    ++ columns "Arguments" [("[COMMAND]...", "Print help for the subcommand(s)")]

def generalHelp : String :=
  description ++ "\n\nUsage: " ++ applicationName ++ " [OPTIONS] <COMMAND>\n"
    ++ columns "Commands" (CommandName.all.map (fun command => (command.text, command.about))
      ++ [("help", helpAbout)])
    ++ columns "Options" [rootRow, databaseRow, helpRow, ("-V, --version", "Print version")]

def helpText : HelpTopic → String
  | .program => generalHelp
  | .command name => commandHelp name
  | .help => helpOnHelp

end HandlerIndex.CommandLine
