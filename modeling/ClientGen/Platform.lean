import ClientGen.Client.Placeholder
import ClientGen.Format
import ClientGen.Json.Reader
import ClientGen.Storage.Medium
import ClientGen.Yaml.Reader

/-!
# Platforms

What a run is given: the parsers of its files, the engine of its templates and the medium that it
writes to. Statements about runs are made for every platform. The program itself is run on the
standard one, whose parsers know what is common in JSON and YAML texts.
-/
namespace ClientGen

structure Platform where
  parsers : Parsers
  engine : Client.TemplateEngine
  medium : Medium

def Parsers.standard : Parsers where
  json := Json.parse
  yaml s := do (← Yaml.Node.parse s.toList).value

def Platform.standard : Platform := ⟨.standard, .placeholders, .willing⟩

def Disk.readDocument : Disk → FilePath → Outcome Value := Parsers.standard.readDocument

end ClientGen
