import RecordProjection.Declaration
import RecordProjection.Text.Joiner

/-!
# Settings

The settings of an engine, read from a declaration or from the variables of an environment.
Settings that are not given have their defaults.
-/
namespace RecordProjection

/-- The settings of an engine. -/
structure Settings where
  cachesShapes : Bool
  cachesDescriptors : Bool
  cacheSize : Declaration.Positive
  maxDepth : Declaration.Positive
  joiner : Joiner

namespace Settings

open Declaration

/-- The joiner when no other is set. -/
def defaultJoiner : Joiner := ⟨['.'], by decide⟩

/-- The number of descriptors that are kept when no other is set. -/
def defaultCacheSize : Positive := ⟨128, by decide⟩

/-- The depth a shape may have when no other is set. -/
def defaultMaxDepth : Positive := ⟨32, by decide⟩

/-- The settings when none is given. -/
def default : Settings := ⟨true, true, defaultCacheSize, defaultMaxDepth, defaultJoiner⟩

instance : Inhabited Settings := ⟨default⟩

/-- What is said of a joiner without characters. -/
def emptyJoinerText : String := "joiner must be a non-empty string"

/-- A member that has to be a joiner. -/
def joinerMember (v : Value) : Checked Joiner :=
  match Declaration.text v with
  | .error faults => .error faults
  | .ok s =>
    match Joiner.of? s with
    | some j => .ok j
    | none => .fault (.refused emptyJoinerText)

/-- The names of the settings, each with the variable that sets it. -/
def variableNames : List (String × String) :=
  [("parser_cache_enabled", "RECORDSHAPE_PARSER_CACHE_ENABLED"),
   ("descriptor_cache_enabled", "RECORDSHAPE_DESCRIPTOR_CACHE_ENABLED"),
   ("descriptor_cache_size", "RECORDSHAPE_DESCRIPTOR_CACHE_SIZE"),
   ("max_depth", "RECORDSHAPE_MAX_DEPTH"),
   ("joiner", "RECORDSHAPE_JOINER")]

/-- The settings that the members of a declaration give. -/
def ofDeclaration (members : Members) : Checked Settings :=
  ((optional members "parser_cache_enabled" default.cachesShapes flag).both <|
    (optional members "descriptor_cache_enabled" default.cachesDescriptors flag).both <|
    (optional members "descriptor_cache_size" default.cacheSize positive).both <|
    (optional members "max_depth" default.maxDepth positive).both <|
    (optional members "joiner" default.joiner joinerMember).both
      (onlyMembers members (variableNames.map Prod.fst))).map
    fun (cachesShapes, cachesDescriptors, cacheSize, maxDepth, joiner, _) =>
      ⟨cachesShapes, cachesDescriptors, cacheSize, maxDepth, joiner⟩

/-- The settings that the variables of an environment give. Variables of other names say
nothing. -/
def ofEnvironment (environment : Entries String String) : Checked Settings :=
  ofDeclaration (variableNames.filterMap fun (setting, name) =>
    (Entries.get? name environment).map fun s => (setting, .text s))

end Settings
end RecordProjection
