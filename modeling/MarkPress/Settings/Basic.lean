/-
Module: MarkPress.Settings.Basic
Purpose: The settings of the program, each with the variable it comes from and its default.
Main exports:
  Settings, Settings.variableNames, Settings.ofEnvironment, Settings.siteConfig
-/
import MarkPress.Settings.Environment
import MarkPress.Site.Build

namespace MarkPress

/-- What can be set about the program. -/
structure Settings where
  sourceFolder : Text
  outputFolder : Text
  templateFolder : Text
  defaultTemplate : Text
  siteTitle : Text
  serveHost : Text
  servePort : Binary64
  logFormat : Text
deriving Repr, Inhabited, DecidableEq

namespace Settings

/-- The names of the variables that are read. -/
def variableNames : List Text :=
  ["AGM_SOURCE_DIR".toList, "AGM_OUTPUT_DIR".toList, "AGM_TEMPLATE_DIR".toList,
    "AGM_DEFAULT_TEMPLATE".toList, "AGM_SITE_TITLE".toList, "AGM_SERVE_HOST".toList,
    "AGM_SERVE_PORT".toList, "AGM_LOG_FORMAT".toList]

/-- The settings that an environment asks for. -/
def ofEnvironment (environment : Environment) : Except SettingError Settings := do
  let text (name fallback : Text) := environment.text name (some fallback) false
  return {
    sourceFolder := ← text "AGM_SOURCE_DIR".toList "content".toList
    outputFolder := ← text "AGM_OUTPUT_DIR".toList "public".toList
    templateFolder := ← text "AGM_TEMPLATE_DIR".toList "templates".toList
    defaultTemplate := ← text "AGM_DEFAULT_TEMPLATE".toList "page".toList
    siteTitle := ← text "AGM_SITE_TITLE".toList []
    serveHost := ← text "AGM_SERVE_HOST".toList "127.0.0.1".toList
    servePort :=
      ← environment.number "AGM_SERVE_PORT".toList (some (Binary64.ofDecimal false 8080 0)) false
    logFormat := ← text "AGM_LOG_FORMAT".toList [] }

/-- What of the settings a build needs. -/
def siteConfig (settings : Settings) : SiteConfig :=
  ⟨settings.sourceFolder, settings.outputFolder, settings.templateFolder,
    settings.defaultTemplate, settings.siteTitle⟩

end Settings

end MarkPress
