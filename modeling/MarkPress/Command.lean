/-
Module: MarkPress.Command
Purpose: What the program does for a command, as a function of the files.
Main exports:
  Command, Command.ofArguments?, Command.run, CommandResult, CommandError
-/
import MarkPress.Site.Build

namespace MarkPress

/-- What the program can be asked to do. -/
inductive Command where
  /-- Build the site. -/
  | build
  /-- Print the output of the body of one document. -/
  | compile (file : Text)
deriving Repr, Inhabited, DecidableEq

/-- Why a command can not be carried out. -/
inductive CommandError where
  | file (error : FileError)
  | region (error : RegionError)
deriving Repr, Inhabited, DecidableEq

/-- The text that reports an error. -/
def CommandError.message : CommandError → Text
  | .file error => error.message
  | .region error => error.message

/-- What a command did. -/
structure CommandResult where
  /-- What was printed, piece by piece. -/
  printed : List Text := []
  /-- The exit code, if the command asks for one. -/
  exitCode : Option Nat := none
  failure : Option CommandError := none
  log : List Log.Message := []
  /-- What was built, if the command builds. -/
  report : BuildReport := {}
  files : Files
deriving Repr, Inhabited, DecidableEq

namespace Command

/-- The command that arguments ask for. -/
def ofArguments? : List Text → Option Command
  | [name] => if name = "build".toList then some .build else none
  | [name, file] => if name = "compile".toList then some (.compile file) else none
  | _ => none

/-- The lines that report a build. -/
def summary (report : BuildReport) : List Text :=
  (Text.ofNat report.pages.length ++ " pages, ".toList ++ Text.ofNat report.copied.length
      ++ " files copied\n".toList)
    :: report.failures.map fun failure =>
      "failed: ".toList ++ failure.source ++ ": ".toList ++ failure.error ++ ['\n']

/-- Build the site and report. A file that could not be built makes the exit code one. -/
def runBuild (config : SiteConfig) (files : Files) : CommandResult :=
  let done := (Site.ofFiles config files).build
  match done.report with
  | .error error => { failure := some (.file error), log := done.log, files := done.site.files }
  | .ok report =>
      { printed := summary report
        exitCode := if report.failures.isEmpty then none else some 1
        log := done.log
        report := report
        files := done.site.files }

/-- Print the output of the body of a document. What its header says is not looked at. -/
def runCompile (file : Text) (files : Files) : CommandResult :=
  match files.follow file with
  | .error error => { failure := some (.file error), files := files }
  | .ok text =>
      match render (Header.split text).body with
      | .error error => { failure := some (.region error), files := files }
      | .ok html => { printed := [html ++ ['\n']], files := files }

/-- Carry out a command. -/
def run (config : SiteConfig) (files : Files) : Command → CommandResult
  | .build => runBuild config files
  | .compile file => runCompile file files

end Command

end MarkPress
