import ClientGen.Client.Render
import ClientGen.Output
import ClientGen.Platform

/-!
# Generating a client

A document is compiled, its files are made, and only then is anything written.
-/
namespace ClientGen.Client

/-- The templates in the directory that the configuration names. -/
def templatesOn (d : Disk) (config : Config) : Templates := fun name =>
  if config.templates.isSet then
    d.text? ((FilePath.ofText config.templates.display).child name)
  else none

/-- The files at the top of the directory that the configuration leaves out. -/
def omittedFiles (config : Config) : List String :=
  (if config.modelIndex then [] else [modelIndexPath]) ++
    (if config.serviceIndex then [] else [serviceIndexPath]) ++
    (if config.apiModule then [] else [modulePath config])

/-- The directory that is written, and what is done about files that are no longer produced. -/
def outputFor (config : Config) (directory : FilePath) : Output :=
  ⟨directory, config.removeStaleFiles, omittedFiles config⟩

/-- Generates the client of a document in a directory, and gives the paths of its files. -/
def generateOn (platform : Platform) (config : Config) (document : Value) (directory : FilePath) :
    OnDisk (List FilePath) := do
  let templates ← OnDisk.look fun d => .ok (templatesOn d config)
  let files ← platform.engine.render config templates document
  let written ← (outputFor config directory).writeAllOn platform.medium files
  Logged.note .info .generation
    ("Generated " ++ Text.natText written.length ++ " files in " ++ directory.text)
  return written

def generateFileOn (platform : Platform) (config : Config) (path directory : FilePath) :
    OnDisk (List FilePath) := do
  let document ← OnDisk.look fun d => platform.parsers.readDocument d path
  generateOn platform config document directory

def generate : Config → Value → FilePath → OnDisk (List FilePath) := generateOn .standard

def generateFile : Config → FilePath → FilePath → OnDisk (List FilePath) :=
  generateFileOn .standard

end ClientGen.Client
