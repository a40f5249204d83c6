import ClientGen.Api
import ClientGen.Client.Placeholder
import ClientGen.Client.ServiceFile
import ClientGen.Client.SharedFiles

/-!
# The generated files

A compiled document is written as a table of files: one for each model and each example that is
asked for, one for each service, the indexes, the module, the configuration, and the files that
are the same for every document.
-/
namespace ClientGen.Client

/-- The models behind class names, each once; names that are not in the table are passed over. -/
def importedModels (models : Table Model) (names : List String) : List Model :=
  (TypeExpr.distinct (names.map Naming.key)).filterMap models.get?

/-- The class names that the file of a service imports. -/
def importedClasses (s : Service) : List String :=
  s.dependencies ++ s.errorDependencies.filter fun name => decide (name ∉ s.dependencies)

def modelPath (stem : String) : String := "models/" ++ stem ++ ".ts"

/-- The path of a file in the directory of services. -/
def servicePath (stem : String) : String := "services/" ++ stem ++ ".ts"

def modelIndexPath : String := "models.ts"

/-- The path of the file that exports all services. -/
def serviceIndexPath : String := "services.ts"

def modulePath (config : Config) : String := moduleStem config ++ ".ts"

/-- The built in text of a file. -/
def Subject.builtIn (g : Globals) : Subject → Outcome String
  | .model m imports => modelFile g imports m
  | .modelExample m => exampleFile g m
  | .modelIndex models => .ok (modelIndexFile g models)
  | .service s imports => serviceFile g imports s
  | .serviceIndex services => .ok (serviceIndexFile g services)
  | .module services => .ok (moduleFile g services)
  | .configuration => .ok (configurationFile g)
  | .strictHttpResponse => .ok (strictHttpResponseFile g)
  | .baseService => .ok (baseServiceFile g)

/-- A file that is to be written, and what it is about. -/
structure FilePlan where
  path : String
  subject : Subject

def modelPlans (g : Globals) (models : Table Model) (m : Model) : List FilePlan :=
  ⟨modelPath m.fileStem, .model m (importedModels models m.dependencies)⟩ ::
    if g.config.generateExamples ∧ m.sample ≠ .null then
      [⟨modelPath m.sampleFile, .modelExample m⟩]
    else []

def servicePlan (models : Table Model) (s : Service) : FilePlan :=
  ⟨servicePath s.fileStem, .service s (importedModels models (importedClasses s))⟩

/-- A file that is there only if the configuration asks for it. -/
def planIf (wanted : Bool) (plan : FilePlan) : List FilePlan :=
  if wanted then [plan] else []

/-- All files of a compiled document, in order. -/
def plans (g : Globals) (api : Api) : List FilePlan :=
  let models := api.models.values
  let services := api.services.values
  models.flatMap (modelPlans g api.models) ++
    planIf g.config.modelIndex ⟨modelIndexPath, .modelIndex models⟩ ++
    services.map (servicePlan api.models) ++
    planIf g.config.serviceIndex ⟨serviceIndexPath, .serviceIndex services⟩ ++
    planIf g.config.apiModule ⟨modulePath g.config, .module services⟩ ++
    [⟨g.configurationStem ++ ".ts", .configuration⟩,
      ⟨"strict-http-response.ts", .strictHttpResponse⟩,
      ⟨"base-service.ts", .baseService⟩]

/-- The generated files by path, with the texts that `text` makes; a later file takes the place of
an earlier one. -/
def files (text : Subject → Outcome String) (g : Globals) (api : Api) :
    Outcome (Table String) := do
  let written ← (plans g api).mapM fun plan => do
    return (plan.path, ← text plan.subject)
  return Table.ofList written

namespace TemplateEngine

/-- The text of a file: that of its template if one takes its place, with the blanks at the ends
of lines dropped. -/
def fileText (engine : TemplateEngine) (g : Globals) (templates : Templates) (subject : Subject) :
    Outcome String := do
  let text ← match templates subject.templateName with
    | some template => engine.fill templates g subject template
    | none => subject.builtIn g
  return trimLines text

/-- Compiles a document and makes the texts of its files. -/
def render (engine : TemplateEngine) (config : Config) (templates : Templates)
    (document : Value) : Logged (Table String) := do
  let api ← Api.compile config document
  let g : Globals := ⟨config, api.rootUrl⟩
  (files (engine.fileText g templates) g api : Outcome (Table String))

end TemplateEngine

def render : Config → Templates → Value → Logged (Table String) :=
  TemplateEngine.placeholders.render

end ClientGen.Client
