import VueScope.CommandLine.Arguments
import VueScope.Http.Server

/-! The command: it reads its settings, then answers requests from standard input, one
JSON object per line. -/

open VueScope

def requestOfLine? (line : String) : Option Http.Request :=
  match Http.Json.read line.toList with
  | .error _ => none
  | .ok json =>
    let text (key : String) : String := ((json.get? key).bind Http.Json.string?).getD ""
    let query := match json.get? "query" with
      | some (.object entries) =>
        entries.filterMap fun (key, value) => value.string?.map (key, ·)
      | _ => []
    some ⟨text "method", text "path", query, json.get? "body"⟩

def lineOfResponse (response : Http.Response) : String :=
  String.ofList (Http.Json.object [("status", .ofNat response.status), ("body", response.body)]).render

partial def serve (input output : IO.FS.Stream) (cache : Analysis.Cache Analysis.Result) : IO Unit := do
  let line ← input.getLine
  if line.isEmpty then
    return
  match requestOfLine? line with
  | none =>
    output.putStrLn (lineOfResponse .unprocessable)
    output.flush
    serve input output cache
  | some request =>
    let (response, after) := Http.answer cache request
    output.putStrLn (lineOfResponse response)
    output.flush
    serve input output after

def main (arguments : List String) : IO UInt32 := do
  match CommandLine.command arguments with
  | .showHelp =>
    IO.print CommandLine.help
    return 0
  | .refuse error =>
    IO.eprintln error.line
    return 2
  | .serve settings =>
    IO.print settings.banner
    serve (← IO.getStdin) (← IO.getStdout) ∅
    return 0
