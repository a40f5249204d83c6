import ClientGen.Failure
import ClientGen.Text.Case

/-!
# Configuration

The settings of a compilation. A configuration is read from an object whose keys name settings,
in lower case words with underscores or, for most of them, in camel case. Values are turned into
the kind of the setting where this loses nothing, so that numbers and truth values may be written
as texts; keys that name no setting are passed over.
-/
namespace ClientGen

structure Config where
  /-- Tags of the services to generate: a list, a text with commas, or null for all. -/
  includeTags : Value := .null
  /-- Tags of the services to leave out. -/
  excludeTags : Value := .null
  /-- Whether models that no generated service uses are dropped. -/
  ignoreUnusedModels : Bool := true
  /-- The number of parameters from which an operation takes them in one object. -/
  minParamsForContainer : Int := 2
  /-- How optional and required parameters are sorted by name: `asc`, `desc`, or not at all. -/
  sortParams : String := "desc"
  /-- The tag of operations that have none. -/
  defaultTag : String := "Api"
  /-- Whether operation names start in lower case. -/
  camelCase : Bool := false
  /-- What the names of the module and configuration classes start with. -/
  classPrefix : String := "Api"
  modelFileSuffix : String := ""
  serviceFileSuffix : String := ".service"
  exampleFileSuffix : String := "-example"
  /-- Whether a model with an example gets a file for it. -/
  generateExamples : Bool := false
  /-- The directory of templates that take the place of the built in ones. -/
  templates : Value := .null
  /-- Whether the services handle errors. -/
  errorHandler : Bool := true
  apiModule : Bool := true
  modelIndex : Bool := true
  serviceIndex : Bool := true
  /-- Whether the constants of an enumeration are generated. -/
  enumModule : Bool := true
  /-- Whether generated files that are no longer produced are removed. -/
  removeStaleFiles : Bool := true
  addGenerationComment : Bool := true
  /-- The command line that the generation comment tells. -/
  commandLine : String := "swagger_to_code"
  deriving DecidableEq, Repr

inductive Setting where
  | includeTags
  | excludeTags
  | ignoreUnusedModels
  | minParamsForContainer
  | sortParams
  | defaultTag
  | camelCase
  | classPrefix
  | modelFileSuffix
  | serviceFileSuffix
  | exampleFileSuffix
  | generateExamples
  | templates
  | errorHandler
  | apiModule
  | modelIndex
  | serviceIndex
  | enumModule
  | removeStaleFiles
  | addGenerationComment
  deriving DecidableEq, Repr

namespace Setting

/-- All settings. -/
def all : List Setting :=
  [includeTags, excludeTags, ignoreUnusedModels, minParamsForContainer, sortParams, defaultTag,
    camelCase, classPrefix, modelFileSuffix, serviceFileSuffix, exampleFileSuffix,
    generateExamples, templates, errorHandler, apiModule, modelIndex, serviceIndex, enumModule,
    removeStaleFiles, addGenerationComment]

def key : Setting → String
  | includeTags => "include_tags"
  | excludeTags => "exclude_tags"
  | ignoreUnusedModels => "ignore_unused_models"
  | minParamsForContainer => "min_params_for_container"
  | sortParams => "sort_params"
  | defaultTag => "default_tag"
  | camelCase => "camel_case"
  | classPrefix => "prefix"
  | modelFileSuffix => "model_file_suffix"
  | serviceFileSuffix => "service_file_suffix"
  | exampleFileSuffix => "example_file_suffix"
  | generateExamples => "generate_examples"
  | templates => "templates"
  | errorHandler => "error_handler"
  | apiModule => "api_module"
  | modelIndex => "model_index"
  | serviceIndex => "service_index"
  | enumModule => "enum_module"
  | removeStaleFiles => "remove_stale_files"
  | addGenerationComment => "add_generation_comment"

def camelKey? : Setting → Option String
  | includeTags => some "includeTags"
  | excludeTags => some "excludeTags"
  | ignoreUnusedModels => some "ignoreUnusedModels"
  | minParamsForContainer => some "minParamsForContainer"
  | sortParams => some "sortParams"
  | defaultTag => some "defaultTag"
  | camelCase => some "camelCase"
  | errorHandler => some "errorHandler"
  | apiModule => some "apiModule"
  | modelIndex => some "modelIndex"
  | serviceIndex => some "serviceIndex"
  | enumModule => some "enumModule"
  | removeStaleFiles => some "removeStaleFiles"
  | generateExamples => some "generateExamples"
  | _ => none

def ofKey? (k : String) : Option Setting :=
  all.find? fun s => s.key == k || s.camelKey? == some k

end Setting

namespace Config

def trueWords : List String := ["true", "yes", "on", "1"]

def falseWords : List String := ["false", "no", "off", "0"]

/-- The refusal of a value, which tells it; an integer with too many digits cannot be told. -/
def refusal {α : Type} (fault : Value → SettingFault) (v : Value) : Outcome α :=
  if v.isTellable then .error (.setting (fault v)) else .error (.misuse .unreadable)

/-- A value as a flag: a truth value, one of the words for it, zero or one. -/
def asFlag (key : String) (v : Value) : Outcome Bool :=
  let refused : Outcome Bool := refusal (.notBoolean key) v
  match v with
  | .scalar .null => .error (.setting (.null key))
  | .bool b => .ok b
  | .int n => if n = 0 then .ok false else if n = 1 then .ok true else refused
  | .text s =>
    let word := Text.lower (Text.trim s)
    if word ∈ trueWords then .ok true else if word ∈ falseWords then .ok false else refused
  | _ => refused

/-- A value as an integer: a number without its fraction, a truth value, or a numeral. -/
def asInteger (key : String) (v : Value) : Outcome Int :=
  let refused : Outcome Int := refusal (.notInteger key) v
  match v with
  | .scalar .null => .error (.setting (.null key))
  | .bool b => .ok (if b then 1 else 0)
  | .int n => .ok n
  | .scalar (.float (.infinite _)) => .error (.misuse .outOfRange)
  | .scalar (.float x) =>
    match x.truncate? with
    | some n => .ok n
    | none => refused
  | .text s =>
    match Text.readInt? s with
    | some n => .ok n
    | none => refused
  | _ => refused

/-- A value as a text: everything but lists and objects, as long as it can be shown. -/
def asWords (key : String) (v : Value) : Outcome String :=
  match v with
  | .scalar .null => .error (.setting (.null key))
  | .scalar s => if s.isTellable then .ok s.display else .error (.misuse .unreadable)
  | v => refusal (.notText key) v

def set (c : Config) (s : Setting) (v : Value) : Outcome Config :=
  match s with
  | .includeTags => .ok { c with includeTags := v }
  | .excludeTags => .ok { c with excludeTags := v }
  | .templates => .ok { c with templates := v }
  | .minParamsForContainer => do return { c with minParamsForContainer := ← asInteger s.key v }
  | .sortParams => do return { c with sortParams := ← asWords s.key v }
  | .defaultTag => do return { c with defaultTag := ← asWords s.key v }
  | .classPrefix => do return { c with classPrefix := ← asWords s.key v }
  | .modelFileSuffix => do return { c with modelFileSuffix := ← asWords s.key v }
  | .serviceFileSuffix => do return { c with serviceFileSuffix := ← asWords s.key v }
  | .exampleFileSuffix => do return { c with exampleFileSuffix := ← asWords s.key v }
  | .ignoreUnusedModels => do return { c with ignoreUnusedModels := ← asFlag s.key v }
  | .camelCase => do return { c with camelCase := ← asFlag s.key v }
  | .generateExamples => do return { c with generateExamples := ← asFlag s.key v }
  | .errorHandler => do return { c with errorHandler := ← asFlag s.key v }
  | .apiModule => do return { c with apiModule := ← asFlag s.key v }
  | .modelIndex => do return { c with modelIndex := ← asFlag s.key v }
  | .serviceIndex => do return { c with serviceIndex := ← asFlag s.key v }
  | .enumModule => do return { c with enumModule := ← asFlag s.key v }
  | .removeStaleFiles => do return { c with removeStaleFiles := ← asFlag s.key v }
  | .addGenerationComment => do return { c with addGenerationComment := ← asFlag s.key v }

def get (c : Config) : Setting → Value
  | .includeTags => c.includeTags
  | .excludeTags => c.excludeTags
  | .ignoreUnusedModels => .bool c.ignoreUnusedModels
  | .minParamsForContainer => .int c.minParamsForContainer
  | .sortParams => .text c.sortParams
  | .defaultTag => .text c.defaultTag
  | .camelCase => .bool c.camelCase
  | .classPrefix => .text c.classPrefix
  | .modelFileSuffix => .text c.modelFileSuffix
  | .serviceFileSuffix => .text c.serviceFileSuffix
  | .exampleFileSuffix => .text c.exampleFileSuffix
  | .generateExamples => .bool c.generateExamples
  | .templates => c.templates
  | .errorHandler => .bool c.errorHandler
  | .apiModule => .bool c.apiModule
  | .modelIndex => .bool c.modelIndex
  | .serviceIndex => .bool c.serviceIndex
  | .enumModule => .bool c.enumModule
  | .removeStaleFiles => .bool c.removeStaleFiles
  | .addGenerationComment => .bool c.addGenerationComment

def suffixesKey : String := "customFileSuffix"

/-- Gives the suffix of one kind of file a new value, if there is one among `suffixes`. -/
def setSuffix (suffixes : Fields) (kind : String) (store : Config → String → Config)
    (c : Config) : Outcome Config :=
  match suffixes.get? kind with
  | some v => do return store c (← asWords (suffixesKey ++ "." ++ kind) v)
  | none => .ok c

/-- Gives the file suffixes new values. -/
def setSuffixes (c : Config) (suffixes : Fields) : Outcome Config := do
  let c ← c |> setSuffix suffixes "model" fun c s => { c with modelFileSuffix := s }
  let c ← c |> setSuffix suffixes "service" fun c s => { c with serviceFileSuffix := s }
  c |> setSuffix suffixes "example" fun c s => { c with exampleFileSuffix := s }

/-- Applies one entry of a configuration. -/
def apply (c : Config) (key : Scalar) (v : Value) : Outcome Config :=
  match key with
  | .text k =>
    match Setting.ofKey? k with
    | some s => c.set s v
    | none =>
      match v with
      | .object suffixes => if k = suffixesKey then c.setSuffixes suffixes else .ok c
      | _ => .ok c
  | _ => .ok c

/-- Applies the entries of a configuration one after another. -/
def applyAll (c : Config) : Fields → Outcome Config
  | [] => .ok c
  | (key, v) :: rest => do (← c.apply key v).applyAll rest

/-- Reads a configuration. -/
def ofValue (v : Value) : Outcome Config :=
  match v with
  | .object fields => ({} : Config).applyAll fields
  | v => .error (.setting (.notAMapping v))

/-- The entries of a configuration that says the same. -/
def toFields (c : Config) : Fields :=
  Setting.all.map fun s => (.text s.key, c.get s)

def toValue (c : Config) : Value := .object c.toFields

end Config

end ClientGen
