/-! What the command line settles, and what is said when the service starts. -/
namespace VueScope.CommandLine

inductive LogLevel where
  | debug
  | info
  | warning
  | error
deriving DecidableEq, Repr

namespace LogLevel

def all : List LogLevel :=
  [debug, info, warning, error]

def name : LogLevel → String
  | debug => "DEBUG"
  | info => "INFO"
  | warning => "WARNING"
  | error => "ERROR"

def key : LogLevel → String
  | debug => "debug"
  | info => "info"
  | warning => "warning"
  | error => "error"

def ofName? (name : String) : Option LogLevel :=
  all.find? fun level => level.name = name

end LogLevel

structure Settings where
  host : String
  port : Int
  logLevel : LogLevel
deriving DecidableEq, Repr

namespace Settings

def initial : Settings := ⟨"127.0.0.1", 8000, .info⟩

/-- How long clients should wait for further edits, in milliseconds. -/
def debounce : Nat := 300

def banner (settings : Settings) : String :=
  "🚀 Starting server at http://" ++ settings.host ++ ":" ++ toString settings.port ++ "\n" ++
    "   Recommended client debounce: " ++ toString debounce ++ " ms\n" ++
    "   Press Ctrl+C to stop.\n"

end Settings

def programName : String := "glimpse-server"

def help : String :=
  "usage: glimpse-server [-h] [--host HOST] [--port PORT]\n" ++
    "                      [--log-level \x7bDEBUG,INFO,WARNING,ERROR\x7d]\n" ++
    "\n" ++
    "Analysis server for Vue single-file components. Hosts should debounce edits\n" ++
    "before requesting analysis.\n" ++
    "\n" ++
    "options:\n" ++
    "  -h, --help            show this help message and exit\n" ++
    "  --host HOST           Host interface to bind the server to (default:\n" ++
    "                        127.0.0.1).\n" ++
    "  --port PORT           Port to run the server on (default: 8000).\n" ++
    "  --log-level \x7bDEBUG,INFO,WARNING,ERROR\x7d\n" ++
    "                        Logging level for the analysis services (default:\n" ++
    "                        INFO).\n"

end VueScope.CommandLine
