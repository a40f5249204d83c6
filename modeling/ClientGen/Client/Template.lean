import ClientGen.Client.Globals
import ClientGen.Model.Basic
import ClientGen.Service.Basic

/-!
# Templates

A template takes the place of the built in text of one kind of file. What it means is up to a
template engine, which is given: it makes the text of a file from a template, from the names that
all files share and from what the file is about.
-/
namespace ClientGen.Client

inductive Subject where
  | model (m : Model) (imports : List Model)
  | modelExample (m : Model)
  | modelIndex (models : List Model)
  | service (s : Service) (imports : List Model)
  | serviceIndex (services : List Service)
  | module (services : List Service)
  | configuration
  | strictHttpResponse
  | baseService

/-- The name of the file that a template is read from. -/
def Subject.templateName : Subject → String
  | .model .. => "model.ts.jinja2"
  | .modelExample _ => "example.ts.jinja2"
  | .modelIndex _ => "models.ts.jinja2"
  | .service .. => "service.ts.jinja2"
  | .serviceIndex _ => "services.ts.jinja2"
  | .module _ => "module.ts.jinja2"
  | .configuration => "configuration.ts.jinja2"
  | .strictHttpResponse => "strict-http-response.ts.jinja2"
  | .baseService => "base-service.ts.jinja2"

/-- Templates that take the place of built in ones, by the names of their files. -/
abbrev Templates := String → Option String

/-- No template takes the place of a built in one. -/
def Templates.none : Templates := fun _ => Option.none

structure TemplateEngine where
  /-- The text that a template gives for a subject; it may refer to the other templates. -/
  fill : Templates → Globals → Subject → String → Outcome String

end ClientGen.Client
