import ClientGen.Client.ModelFile
import ClientGen.Service.Basic

/-!
# Files of services

The file of a service declares a class with two methods for each operation: one that gives the
whole response, and one that gives its content. Parameters that are taken in one object are
declared in a namespace of the same name.
-/
namespace ClientGen.Client

/-- The parameters of a method, as they are declared. -/
def signature (serviceClass : String) (o : Operation) : String :=
  match o.paramsClass with
  | some paramsClass => "params: " ++ serviceClass ++ "." ++ paramsClass
  | none => String.join (o.parameters.map fun p =>
    optionalName p.identifier p.required ++ ": " ++ p.type.text ++ (if p.isLast then "" else ", "))

/-- The parameters of a method, as they are handed on. -/
def arguments (o : Operation) : String :=
  match o.paramsClass with
  | some _ => "params"
  | none => String.join (o.parameters.map fun p => p.identifier ++ (if p.isLast then "" else ", "))

/-- What stands between the items of an array, by the format of the collection. -/
def separators : List (String × String) :=
  [("csv", ","), ("ssv", " "), ("tsv", "\\t"), ("pipes", "|")]

def separatorOf? (format : Value) : Option String :=
  match format with
  | .text name => separators.lookup name
  | _ => none

/-- A parameter as text: the items of an array are joined when its format has a separator. -/
def valueText (p : Parameter) : Outcome String :=
  let plain := p.access ++ ".toString()"
  if p.isArray then
    match p.collectionFormat with
    | .scalar _ =>
      match separatorOf? p.collectionFormat with
      | some separator => .ok (p.access ++ ".join('" ++ separator ++ "')")
      | none => .ok plain
    | _ => unsuitableKind
  else .ok plain

def nameLiteral (p : Parameter) : String := "'" ++ p.name.display ++ "'"

def whenGiven (p : Parameter) (statement : String) : String :=
  "    if (" ++ p.access ++ " != null) " ++ statement ++ "\n"

/-- The statement that sends a query parameter; the items of an array without a separator are sent
one by one. -/
def querySending (p : Parameter) : Outcome String :=
  if p.isArray && (separatorOf? p.collectionFormat).isNone then
    .ok ("    (" ++ p.access ++ " || []).forEach(val => \x7bif (val != null) __params = " ++
      "__params.append(" ++ nameLiteral p ++ ", val.toString())\x7d);\n")
  else do
    return whenGiven p ("__params = __params.set(" ++ nameLiteral p ++ ", " ++ (← valueText p) ++ ");")

def formSending (p : Parameter) : String :=
  let value := if p.toJson then "JSON.stringify(" ++ p.access ++ ")"
    else p.access ++ " as string | Blob"
  whenGiven p ("\x7b __formData.append(" ++ nameLiteral p ++ ", " ++ value ++ ");\x7d")

/-- The statement that sends a parameter; a path parameter is part of the path already. -/
def sending (p : Parameter) : Outcome String :=
  match p.location with
  | .text "query" => querySending p
  | .text "header" => do
    return whenGiven p ("__headers = __headers.set(" ++ nameLiteral p ++ ", " ++ (← valueText p) ++
      ");")
  | .text "body" => .ok ("    __body = " ++ p.access ++ ";\n")
  | .text "formData" => .ok (formSending p)
  | _ => .ok ""

/-- The statement that gives the response, with its content decoded. -/
def responseStatement (o : Operation) : String :=
  let type := "__StrictHttpResponse<" ++ o.resultType.text ++ ">"
  let withBody (body : String) : String :=
    "(_r as HttpResponse<any>).clone(\x7b body: " ++ body ++ " \x7d)"
  let response := match o.resultKind with
    | .void => withBody "null"
    | .number => withBody "parseFloat((_r as HttpResponse<any>).body as string)"
    | .boolean => withBody "(_r as HttpResponse<any>).body === 'true'"
    | _ => "_r"
  "        return " ++ response ++ " as " ++ type ++ ";\n"

def responseMethod (config : Config) (serviceClass : String) (o : Operation) : Outcome String := do
  let description ← comment (.text o.description) 1
  let sendings ← o.parameters.mapM sending
  return "\n" ++ description ++ o.name ++ "Response(" ++ signature serviceClass o ++
    "): __Observable<__StrictHttpResponse<" ++ o.resultType.text ++ ">> \x7b\n" ++
    unlines [
      "    let __params = this.newParams();",
      "    let __headers = new HttpHeaders();",
      "    let __body: any = null;"] ++
    (if o.isMultipart then
      unlines ["    let __formData = new FormData();", "    __body = __formData;"] else "") ++
    String.join sendings ++
    unlines [
      "    let req = new HttpRequest<any>(",
      "      '" ++ o.method ++ "',",
      "      this.rootUrl + \x60" ++ o.pathExpression ++ "\x60,",
      "      __body,",
      "      \x7b",
      "        headers: __headers,",
      "        params: __params,",
      "        responseType: '" ++ o.resultKind.responseType ++ "'",
      "      \x7d);",
      "",
      "    return this.http.request<any>(req).pipe(",
      "      __filter(_r => _r instanceof HttpResponse),",
      "      __map((_r) => \x7b"] ++
    responseStatement o ++
    "      \x7d)" ++
    (if config.errorHandler then ",\n      __catchError(error => this.handleError(error))" else "") ++
    "\n    );\n  \x7d\n"

/-- The remark about the headers of a response, if there are any to be had. -/
def headersNote (o : Operation) : String :=
  if o.returnsHeaders then
    "The response headers are only available from \x60" ++ o.name ++ "Response\x60."
  else ""

def contentMethod (serviceClass : String) (o : Operation) : Outcome String := do
  let notes := [o.description, headersNote o].filter (· != "")
  let description ← comment (.text ("\n\n".intercalate notes)) 1
  return description ++ o.name ++ "(" ++ signature serviceClass o ++ "): __Observable<" ++
    o.resultType.text ++ "> \x7b\n" ++
    unlines [
      "    return this." ++ o.name ++ "Response(" ++ arguments o ++ ").pipe(",
      "      __map(_r => _r.body as " ++ o.resultType.text ++ ")",
      "    );",
      "  \x7d"]

def pathConstant (o : Operation) : String :=
  "  static readonly " ++ Text.upperFirst o.name ++ "Path = '" ++ o.path.display ++ "';"

/-- A parameter in the interface of the object that holds the parameters. -/
def containerMember (p : Parameter) : Outcome String := do
  return (← comment p.description 2) ++ optionalName p.identifier p.required ++ ": " ++
    p.type.text ++ ";\n"

/-- The interface of the object that holds the parameters of an operation, if there is one. -/
def container (o : Operation) : Outcome String :=
  match o.paramsClass with
  | none => .ok ""
  | some paramsClass => do
    return "\n  /**\n   * Parameters for " ++ o.name ++ "\n   */\n  export interface " ++
      paramsClass ++ " \x7b\n" ++ String.join (← o.parameters.mapM containerMember) ++ "  \x7d\n"

def serviceImports (g : Globals) : String :=
  unlines [
    importLine "Injectable" "@angular/core",
    importLine "HttpClient, HttpRequest, HttpResponse, HttpHeaders" "@angular/common/http",
    importLine "BaseService as __BaseService" "../base-service",
    importLine (g.configurationClass ++ " as __Configuration") ("../" ++ g.configurationStem),
    importLine "StrictHttpResponse as __StrictHttpResponse" "../strict-http-response",
    importLine "Observable as __Observable" "rxjs",
    importLine ("map as __map, filter as __filter" ++
      (if g.config.errorHandler then ", catchError as __catchError" else "")) "rxjs/operators",
    ""]

def methods (config : Config) (serviceClass : String) (o : Operation) : Outcome String := do
  let response ← responseMethod config serviceClass o
  return response ++ (← contentMethod serviceClass o)

def serviceFile (g : Globals) (imports : List Model) (s : Service) : Outcome String := do
  let description ← comment s.description 0
  let methods ← s.operations.mapM (methods g.config s.className)
  let containers ← s.operations.mapM container
  return g.header ++ serviceImports g ++ modelImports "../models/" imports ++ description ++
    unlines [
      "@Injectable(\x7b",
      "  providedIn: 'root',",
      "\x7d)",
      "class " ++ s.className ++ " extends __BaseService \x7b"] ++
    unlines (s.operations.map pathConstant) ++
    unlines [
      "",
      "  constructor(",
      "    config: __Configuration,",
      "    http: HttpClient",
      "  ) \x7b",
      "    super(config, http);",
      "  \x7d"] ++
    String.join methods ++
    unlines [
      "\x7d",
      "",
      "module " ++ s.className ++ " \x7b"] ++
    String.join containers ++
    unlines [
      "\x7d",
      "",
      "export " ++ nameList s.className]

def serviceIndexFile (g : Globals) (services : List Service) : String :=
  g.comment ++
    unlines (services.map fun s => exportLine s.className ("./services/" ++ s.fileStem))

end ClientGen.Client
