import ClientGen.Client.Globals
import ClientGen.Client.Layout
import ClientGen.Service.Basic

/-!
# Files that all services share

The module that provides all services, the configuration, the base class of the services and the
type of their responses.
-/
namespace ClientGen.Client

def servicesImports (services : List Service) : String :=
  unlines (services.map fun s => importLine s.className ("./services/" ++ s.fileStem))

def moduleFile (g : Globals) (services : List Service) : String :=
  g.header ++
    unlines [
      importLine "NgModule, ModuleWithProviders" "@angular/core",
      importLine "HttpClientModule" "@angular/common/http",
      importLine (g.configurationClass ++ ", " ++ g.configurationInterface)
        ("./" ++ g.configurationStem),
      ""] ++
    servicesImports services ++
    unlines [
      "",
      "/**",
      " * Provider for all " ++ g.config.classPrefix ++ " services, plus " ++ g.configurationClass,
      " */",
      "@NgModule(\x7b",
      "  imports: [",
      "    HttpClientModule",
      "  ],",
      "  exports: [",
      "    HttpClientModule",
      "  ],",
      "  declarations: [],",
      "  providers: [",
      "    " ++ g.configurationClass ++ (if services.isEmpty then "" else ",")] ++
    unlines (services.map fun s => "    " ++ s.className ++ (if s.isLast then "" else ",")) ++
    unlines [
      "  ],",
      "\x7d)",
      "export class " ++ g.moduleClass ++ " \x7b",
      "  static forRoot(customParams: " ++ g.configurationInterface ++ "): ModuleWithProviders<" ++
        g.moduleClass ++ "> \x7b",
      "    return \x7b",
      "      ngModule: " ++ g.moduleClass ++ ",",
      "      providers: [",
      "        \x7b",
      "          provide: " ++ g.configurationClass ++ ",",
      "          useValue: \x7brootUrl: customParams.rootUrl\x7d",
      "        \x7d",
      "      ]",
      "    \x7d",
      "  \x7d",
      "\x7d"]

def configurationFile (g : Globals) : String :=
  g.header ++
    unlines [
      importLine "Injectable" "@angular/core",
      "",
      "/**",
      " * Global configuration for " ++ g.config.classPrefix ++ " services",
      " */",
      "@Injectable(\x7b",
      "  providedIn: 'root',",
      "\x7d)",
      "export class " ++ g.configurationClass ++ " \x7b",
      "  rootUrl: string = '" ++ g.rootUrl ++ "';",
      "\x7d",
      "",
      "export interface " ++ g.configurationInterface ++ " \x7b",
      "  rootUrl?: string;",
      "\x7d"]

def strictHttpResponseFile (g : Globals) : String :=
  g.header ++
    unlines [
      importLine "HttpResponse" "@angular/common/http",
      "",
      "/**",
      " * Constrains the http to not expand the response type with \x60| null\x60",
      " */",
      "export type StrictHttpResponse<T> = HttpResponse<T> & \x7b",
      "  readonly body: T;",
      "\x7d"]

/-- The class that keeps plus signs in parameters. -/
def parameterCodec : String :=
  unlines [
    "/**",
    " * Custom parameter codec to correctly handle the plus sign in parameter",
    " * values. See https://github.com/angular/angular/issues/18261",
    " */",
    "class ParameterCodec implements HttpParameterCodec \x7b",
    "  encodeKey(key: string): string \x7b",
    "    return encodeURIComponent(key);",
    "  \x7d",
    "",
    "  encodeValue(value: string): string \x7b",
    "    return encodeURIComponent(value);",
    "  \x7d",
    "",
    "  decodeKey(key: string): string \x7b",
    "    return decodeURIComponent(key);",
    "  \x7d",
    "",
    "  decodeValue(value: string): string \x7b",
    "    return decodeURIComponent(value);",
    "  \x7d",
    "\x7d",
    "const PARAMETER_CODEC = new ParameterCodec();",
    ""]

def errorMethod : String :=
  unlines [
    "",
    "  /**",
    "   * Handles an error response. Override to customize the error reporting",
    "   * of all the operations of a service.",
    "   */",
    "  protected handleError(error: HttpErrorResponse): Observable<never> \x7b",
    "    return throwError(error);",
    "  \x7d"]

def baseServiceFile (g : Globals) : String :=
  g.header ++
    importLine ("HttpClient, HttpParameterCodec, HttpParams" ++
      (if g.config.errorHandler then ", HttpErrorResponse" else "")) "@angular/common/http" ++ "\n" ++
    (if g.config.errorHandler then importLine "Observable, throwError" "rxjs" ++ "\n" else "") ++
    importLine g.configurationClass ("./" ++ g.configurationStem) ++ "\n\n" ++
    parameterCodec ++
    unlines [
      "/**",
      " * Base class for " ++ g.config.classPrefix ++ " services",
      " */",
      "export class BaseService \x7b",
      "  constructor(",
      "    protected config: " ++ g.configurationClass ++ ",",
      "    protected http: HttpClient",
      "  ) \x7b",
      "  \x7d",
      "",
      "  private _rootUrl: string = '';",
      "",
      "  /**",
      "   * Returns the root url for API operations. If not set directly in this",
      "   * service, will fallback to " ++ g.configurationClass ++ ".rootUrl.",
      "   */",
      "  get rootUrl(): string \x7b",
      "    return this._rootUrl || this.config.rootUrl;",
      "  \x7d",
      "",
      "  /**",
      "   * Sets the root URL for API operations in this service.",
      "   */",
      "  set rootUrl(rootUrl: string) \x7b",
      "    this._rootUrl = rootUrl;",
      "  \x7d",
      "",
      "  /**",
      "   * Creates a new \x60HttpParams\x60 with the correct codec",
      "   */",
      "  protected newParams(): HttpParams \x7b",
      "    return new HttpParams(\x7b",
      "      encoder: PARAMETER_CODEC",
      "    \x7d);",
      "  \x7d"] ++
    (if g.config.errorHandler then errorMethod else "") ++
    "\x7d\n"

end ClientGen.Client
