import Trellis.Output.File
import Trellis.Path
import Trellis.Text.Case

/-!
# Wrapper modules

Directives, pipes and services are classes; templates use functions. A wrapper module makes one
instance of a class and exports a function that calls it, an index gathers the wrappers of one kind,
and the service container hands out the services.
-/

namespace Trellis.Output

open Trellis.Text

/-- The source file as a wrapper names it: by its place among the sources, else by its name. -/
def sourceLabel (relativeSource : String) (path : Path) : String :=
  if relativeSource.isEmpty then path.name else relativeSource

/-- A class that gets a wrapper: the name that templates use, the class and its source file. -/
structure Wrapped where
  name : String
  className : String
  source : String
  deriving DecidableEq, Repr

/-- A service: its scope, the methods that are called at the start, and its source file. -/
structure WrappedService where
  className : String
  scope : String
  onStartup : List String
  source : String
  deriving DecidableEq, Repr

/-- Every user gets an instance of its own. -/
def WrappedService.isTransient (s : WrappedService) : Bool := s.scope == "transient"

/-- The beginning of every wrapper: a remark, the import of the class, and its instance. -/
def wrapperHead (w : Wrapped) (aliasName : String) : List String :=
  ["/**", " * Generated wrapper for " ++ w.className, " * Source: " ++ w.source, " */", "",
    importNames [w.className] (sourceImport w.source aliasName), "",
    "const _" ++ w.name ++ "Instance = new " ++ w.className ++ "();", ""]

/-- The wrapper of a directive. -/
def directiveWrapper (w : Wrapped) (folder : String := "directives") (aliasName : String := "@") :
    File :=
  ⟨folder ++ "/" ++ w.name ++ ".ts", lines (wrapperHead w aliasName ++
    ["export function apply" ++ w.className ++ "(",
      "  props: Record<string, unknown>,",
      "  value: unknown,",
      "): Record<string, unknown> \x7b",
      "  const result = _" ++ w.name ++ "Instance.transform(null, value);",
      "  return \x7b ...props, ...result \x7d;",
      "\x7d", ""]), []⟩

/-- The wrapper of a pipe. -/
def pipeWrapper (w : Wrapped) (folder : String := "pipes") (aliasName : String := "@") : File :=
  ⟨folder ++ "/" ++ w.name ++ ".ts", lines (wrapperHead w aliasName ++
    ["export function " ++ w.name ++ "(value: unknown, ...args: unknown[]): unknown \x7b",
      "  return _" ++ w.name ++ "Instance.transform(value, ...args);",
      "\x7d", ""]), []⟩

/-- The module that exports all wrappers of a kind, given as function and wrapper names. -/
def wrapperIndex (folder kind : String) (exports : List (String × String)) : File :=
  let text :=
    if exports.isEmpty then ["// No custom " ++ kind, "export \x7b\x7d;"]
    else exports.map fun (function, name) =>
      "export \x7b " ++ function ++ " \x7d from \"./" ++ name ++ ".ts\";"
  ⟨folder ++ "/mod.ts", lines (text ++ [""]), []⟩

/-- The index of directives. -/
def directiveIndex (ws : List Wrapped) (folder : String := "directives") : File :=
  wrapperIndex folder "directives" (ws.map fun w => ("apply" ++ w.className, w.name))

/-- The index of pipes. -/
def pipeIndex (ws : List Wrapped) (folder : String := "pipes") : File :=
  wrapperIndex folder "pipes" (ws.map fun w => (w.name, w.name))

/-! ## Services -/

/-- The function that hands out a service. -/
def serviceFunction (s : WrappedService) : List String :=
  ["export function get" ++ s.className ++ "(): " ++ s.className ++ " \x7b",
    (if s.isTransient then "  return new " ++ s.className ++ "();"
      else "  return singleton(" ++ s.className ++ ");"),
    "\x7d", ""]

/-- The lines that start a service. -/
def serviceStart (s : WrappedService) : List String :=
  if s.onStartup.isEmpty then []
  else
    let variableName := lowerFirst s.className
    ("  const " ++ variableName ++ " = get" ++ s.className ++ "();") ::
      s.onStartup.map fun method => "  await " ++ variableName ++ "." ++ method ++ "();"

/-- The module that hands out the services. -/
def serviceContainer (services : List WrappedService) (aliasName : String := "@") : File :=
  let imports := services.map fun s => importNames [s.className] (sourceImport s.source aliasName)
  let header := if imports.isEmpty then [] else imports ++ [""]
  ⟨"services/container.ts", lines (header ++
    ["const instances = new Map<unknown, unknown>();",
      "",
      "function singleton<T>(key: new () => T): T \x7b",
      "  if (!instances.has(key)) \x7b",
      "    instances.set(key, new key());",
      "  \x7d",
      "  return instances.get(key) as T;",
      "\x7d",
      ""] ++
    services.flatMap serviceFunction ++
    ["export async function initializeServices(): Promise<void> \x7b"] ++
    services.flatMap serviceStart ++ ["\x7d", ""]), []⟩

/-! ## Helpers of the built-in pipes -/

/-- The module of the functions that built-in pipes call. -/
def helpersFile (folder : String := "pipes") : File :=
  ⟨folder ++ "/helpers.ts", lines ([
    "// Runtime helpers for the built-in pipes",
    "import \x7b useSignal \x7d from \"@preact/signals\";",
    "import \x7b useEffect \x7d from \"preact/hooks\";",
    "",
    "export function toTitleCase(value: unknown): string \x7b",
    "  return String(value ?? \"\").replace(/\\w\\S*/g, (word) => " ++
        "word.charAt(0).toUpperCase() + word.slice(1).toLowerCase());",
    "\x7d",
    "",
    "export function formatCurrency(value: unknown, currency = \"USD\"): string \x7b",
    "  return new Intl.NumberFormat(undefined, \x7b style: \"currency\", " ++
        "currency \x7d).format(Number(value));",
    "\x7d",
    "",
    "export function formatDate(value: unknown, format?: " ++
        "Intl.DateTimeFormatOptions): string \x7b",
    "  return new Intl.DateTimeFormat(undefined, format).format(new " ++
        "Date(value as string | number | Date));",
    "\x7d",
    "",
    "export function formatNumber(value: unknown, digits: number): string \x7b",
    "  return Number(value).toFixed(digits);",
    "\x7d",
    "",
    "export function formatPercent(value: unknown): string \x7b",
    "  return new Intl.NumberFormat(undefined, \x7b style: \"percent\" " ++
        "\x7d).format(Number(value));",
    "\x7d",
    "",
    "export function asyncPipe<T>(value: Promise<T> | T): T | undefined \x7b",
    "  const result = useSignal<T | undefined>(undefined);",
    "  useEffect(() => \x7b",
    "    Promise.resolve(value).then((resolved) => \x7b",
    "      result.value = resolved;",
    "    \x7d);",
    "  \x7d, [value]);",
    "  return result.value;",
    "\x7d"] ++ [""]), []⟩

end Trellis.Output
