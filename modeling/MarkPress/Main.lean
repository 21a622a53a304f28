/-
Module: MarkPress.Main
Purpose: The command line.
  The settings come from the environment. The files that a command needs are read before it runs,
  and what it wrote is put on disk behind it, so the command itself is a function of the files.
Main exports:
  main
-/
import MarkPress.Command
import MarkPress.Settings.Basic

namespace MarkPress.CommandLine

/-- The variables of the environment that are settings. -/
def readEnvironment : IO Environment := do
  let mut environment : Environment := {}
  for name in Settings.variableNames do
    if let some value ← IO.getEnv (String.ofList name) then
      environment := environment.assign name value.toList
  return environment

/-- The files below a folder. -/
partial def filesBelow (folder : Text) : IO (List Text) := do
  let root ← IO.currentDir
  let mut found := []
  for entry in ← (root / String.ofList folder).readDir do
    let path := Path.join folder entry.fileName.toList
    if ← entry.path.isDir then found := found ++ (← filesBelow path)
    else found := found ++ [path]
  return found

/-- Add the files below a folder, if it is there. Only the text of those with an ending is needed,
the others are just copied. -/
def loadFolder (folder ending : Text) (files : Files) : IO Files := do
  let root ← IO.currentDir
  if !(← (root / String.ofList folder).isDir) then return files
  let mut files := files.makeFolders [Path.parts folder]
  for path in ← filesBelow folder do
    let text ←
      if Text.endsWith ending path then IO.FS.readFile (String.ofList path) else pure ""
    files := files.write path text.toList
  return files

/-- The files that a command needs. -/
def load (config : SiteConfig) : Command → IO Files
  | .build => do
      let files ← loadFolder config.sourceFolder Site.documentEnding {}
      loadFolder config.templateFolder ".html".toList files
  | .compile file => do
      let place := (← IO.currentDir) / String.ofList file
      let files := ({} : Files).makeFolders (Path.foldersAlong file)
      if ← place.isDir then return files.makeFolders [Path.parts file]
      else if ← place.pathExists then
        return files.write file (← IO.FS.readFile (String.ofList file)).toList
      else return {}

/-- Make the folders that a file is in. -/
def makeFoldersOf (path : Text) : IO Unit := do
  for folder in (Path.foldersOf path).map (Text.join '/') do
    unless folder.isEmpty do
      IO.FS.createDirAll (String.ofList folder)

/-- Put the pages of a build on disk, and copy the other files byte by byte. -/
def save (config : SiteConfig) (result : CommandResult) : IO Unit := do
  for page in result.report.pages do
    let path := Path.join config.outputFolder page.output
    makeFoldersOf path
    IO.FS.writeFile (String.ofList path) (String.ofList ((result.files.get? path).getD []))
  for source in result.report.copied do
    let path := Path.join config.outputFolder source
    let bytes ← IO.FS.readBinFile (String.ofList (Path.join config.sourceFolder source))
    makeFoldersOf path
    IO.FS.writeBinFile (String.ofList path) bytes

/-- Print a message for a reader of the log, unless only a developer would want it. -/
def report (message : Log.Message) : IO Unit := do
  unless message.level = .debug do
    IO.eprintln (String.ofList (message.level.name.padEnd 5 ++ ' ' :: message.text))

/-- Carry out a command: the exit code. -/
def carryOut (config : SiteConfig) (command : Command) : IO UInt32 := do
  let result := command.run config (← load config command)
  result.log.forM report
  save config result
  for text in result.printed do
    IO.print (String.ofList text)
  match result.failure with
  | some error =>
      report ⟨.error, "Fatal error: Error: ".toList ++ error.message⟩
      return 1
  | none => return UInt32.ofNat (result.exitCode.getD 0)

/-- Read the settings and the arguments, and carry out the command. -/
def run (arguments : List String) : IO UInt32 := do
  let command? := Command.ofArguments? (arguments.map String.toList)
  match Settings.ofEnvironment (← readEnvironment), command? with
  | .error error, _ =>
      report ⟨.error, error.message⟩
      return 1
  | _, none =>
      IO.eprintln "usage: agm build | agm compile FILE"
      return 1
  | .ok settings, some command => carryOut settings.siteConfig command

end MarkPress.CommandLine

/-- The program. -/
def main (arguments : List String) : IO UInt32 := MarkPress.CommandLine.run arguments
