import ClientGen.Config
import ClientGen.Naming

/-!
# Names shared by the generated files

The names of the module and configuration classes and of their files, and the comment on top of
every file. They follow from the configuration and the root URL of the document.
-/
namespace ClientGen.Client

/-- What all generated files are written with. -/
structure Globals where
  config : Config
  rootUrl : String

/-- The stem of the file of the module: `xxx.module` rather than `xxx-module`. -/
def moduleStem (config : Config) : String :=
  let stem := (Naming.fileStem (Naming.className (config.classPrefix ++ "Module"))).toList
  let ending := "-module".toList
  if ending.isSuffixOf stem then
    String.ofList (stem.take (stem.length - ending.length)) ++ ".module"
  else String.ofList stem

/-- The comment that tells how a file was generated. -/
def generationComment (config : Config) : String :=
  if config.addGenerationComment then
    "// Generated by " ++ config.commandLine ++ ". Do not edit.\n"
  else ""

namespace Globals

def moduleClass (g : Globals) : String :=
  Naming.className (g.config.classPrefix ++ "Module")

def configurationClass (g : Globals) : String :=
  Naming.className (g.config.classPrefix ++ "Configuration")

def configurationInterface (g : Globals) : String :=
  Naming.className (g.config.classPrefix ++ "ConfigurationInterface")

def configurationStem (g : Globals) : String :=
  Naming.fileStem g.configurationClass

/-- The names that a template may use, with what they stand for. -/
def bindings (g : Globals) : List (String × String) := [
  ("generation_comment", generationComment g.config),
  ("prefix", g.config.classPrefix),
  ("root_url", g.rootUrl),
  ("module_class", g.moduleClass),
  ("module_file", moduleStem g.config),
  ("configuration_class", g.configurationClass),
  ("configuration_interface", g.configurationInterface),
  ("configuration_file", g.configurationStem)]

/-- What every file starts with. -/
def comment (g : Globals) : String :=
  generationComment g.config ++ "\n"

/-- What every file but the indexes starts with. -/
def header (g : Globals) : String :=
  "/* tslint:disable */\n" ++ g.comment

end Globals

end ClientGen.Client
