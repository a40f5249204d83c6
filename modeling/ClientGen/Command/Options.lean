import ClientGen.Command.Arguments
import ClientGen.Config
import ClientGen.Storage.Disk
import ClientGen.Text.Numeral

/-!
# Options of the command

The arguments of a command line, checked against the disk: the document and the configuration
have to be files, the templates a directory, and the output directory must not be a file. Their
paths are made absolute. Of several faults the first counts, where the options come in the order in
which they are given, then the document, then the options that are not given. The command line is
told again in the generated files, where a value that names something on the disk is told by its
last name; to find out, every value is looked for, and one that is too long for a path is a failure.
-/
namespace ClientGen

structure CommandOptions where
  document : FilePath
  output : FilePath
  config : Option FilePath
  includeTags : Option String
  excludeTags : Option String
  keepUnusedModels : Bool
  minParamsForContainer : Option Int
  sortParams : Option String
  defaultTag : Option String
  classPrefix : Option String
  templates : Option FilePath
  generateExamples : Bool
  verbose : Bool
  deriving DecidableEq, Repr

inductive Refusal where
  /-- The arguments make no sense. -/
  | usage
  /-- A failure while they are checked. -/
  | failure (failure : Failure)
  deriving DecidableEq, Repr

/-- What is accepted of a command line, or why it is refused. -/
abbrev Accepted (α : Type) := Except Refusal α

namespace CommandOptions

def defaultOutput : String := "src/app/api"

def sortOrders : List String := ["asc", "desc", "none"]

def commandName : String := "swagger_to_code"

/-- The text of a path, made absolute; no disk can hold a name with the null character. -/
def absolutePath (d : Disk) (text : String) : Accepted FilePath :=
  let path := FilePath.ofText text
  if path.isPossible then .ok (d.resolve path) else .error (.failure (.misuse .unreadable))

def existingFile (d : Disk) (text : String) : Accepted FilePath := do
  let path ← absolutePath d text
  if d.isFile path then return path else throw .usage

def existingDirectory (d : Disk) (text : String) : Accepted FilePath := do
  let path ← absolutePath d text
  if d.isDirectory path then return path else throw .usage

def possibleDirectory (d : Disk) (text : String) : Accepted FilePath := do
  let path ← absolutePath d text
  if d.isFile path then throw .usage else return path

def integer (text : String) : Accepted Int :=
  match Text.readInt? text with
  | some n => .ok n
  | none => .error .usage

def sortOrder (text : String) : Accepted String :=
  if text ∈ sortOrders then .ok text else .error .usage

def ofArguments (d : Disk) (a : Arguments) : Accepted CommandOptions := do
  let output := possibleDirectory d ((a.value? .output).getD defaultOutput)
  let config := (a.value? .config).mapM (existingFile d)
  let minParamsForContainer := (a.value? .minParamsForContainer).mapM integer
  let sortParams := (a.value? .sortParams).mapM sortOrder
  let templates := (a.value? .templates).mapM (existingDirectory d)
  let check : CommandOption → Accepted Unit
    | .output => discard output
    | .config => discard config
    | .minParamsForContainer => discard minParamsForContainer
    | .sortParams => discard sortParams
    | .templates => discard templates
    | _ => return ()
  a.options.forM fun (option, _) => check option
  let document ← match a.words with
    | word :: _ => existingFile d word
    | [] => throw .usage
  CommandOption.all.forM check
  if a.words.length > 1 then throw .usage
  return {
    document
    output := ← output
    config := ← config
    includeTags := a.value? .includeTags
    excludeTags := a.value? .excludeTags
    keepUnusedModels := a.has .keepUnusedModels
    minParamsForContainer := ← minParamsForContainer
    sortParams := ← sortParams
    defaultTag := a.value? .defaultTag
    classPrefix := a.value? .classPrefix
    templates := ← templates
    generateExamples := a.has .generateExamples
    verbose := a.has .verbose }

/-- The value of an option as it is told, or nothing if the option is not told. -/
def valueText? (o : CommandOptions) : CommandOption → Option String
  | .output => some o.output.text
  | .config => o.config.map FilePath.text
  | .includeTags => o.includeTags
  | .excludeTags => o.excludeTags
  | .minParamsForContainer => o.minParamsForContainer.map Text.intText
  | .sortParams => o.sortParams
  | .defaultTag => o.defaultTag
  | .classPrefix => o.classPrefix
  | .templates => o.templates.map FilePath.text
  | .keepUnusedModels => if o.keepUnusedModels then some "" else none
  | .generateExamples => if o.generateExamples then some "" else none
  | .verbose => if o.verbose then some "" else none

/-- A value that names something on the disk, by its last name; any other as it is. -/
def shortened (d : Disk) (text : String) : Outcome String := do
  let path := FilePath.ofText text
  return if (← d.lookFor path).isSome then path.name else text

def optionWords (o : CommandOptions) (d : Disk) (option : CommandOption) :
    Outcome (List String) := do
  match o.valueText? option with
  | none => return []
  | some text =>
    if option.isFlag then return [option.longName]
    else if text = "" then return []
    else if option = .minParamsForContainer then return [option.longName, text]
    else return [option.longName, ← shortened d text]

/-- The command line, told with the document first and the options in their order. -/
def commandLine (o : CommandOptions) (d : Disk) : Outcome String := do
  let document ← shortened d o.document.text
  let options ← CommandOption.all.mapM (o.optionWords d)
  return " ".intercalate (commandName :: document :: options.flatten)

/-- The configuration with the settings that the command line gives. -/
def applyTo (o : CommandOptions) (config : Config) : Config :=
  { config with
    includeTags := (o.includeTags.map .text).getD config.includeTags
    excludeTags := (o.excludeTags.map .text).getD config.excludeTags
    ignoreUnusedModels := config.ignoreUnusedModels && !o.keepUnusedModels
    minParamsForContainer := o.minParamsForContainer.getD config.minParamsForContainer
    sortParams := o.sortParams.getD config.sortParams
    defaultTag := o.defaultTag.getD config.defaultTag
    classPrefix := o.classPrefix.getD config.classPrefix
    templates := (o.templates.map fun path => Value.text path.text).getD config.templates
    generateExamples := config.generateExamples || o.generateExamples }

end CommandOptions

end ClientGen
