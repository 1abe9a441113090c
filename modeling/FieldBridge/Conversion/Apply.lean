import FieldBridge.Cache.Basic
import FieldBridge.Conversion.Catalog

/-!
# Applying conversions through a cache

A value is converted by kinds or by the id of a conversion. What cannot be converted
stays as it is, and a warning says why; only `tryApply` reports it as an error.
-/

namespace FieldBridge

/-- What is worth telling when a value was left as it was. -/
inductive Warning where
  | noConversion (source target : Kind)
  | unknownConversion (id : String)
  | failed (id : String) (value : Json) (failure : Failure)
  deriving DecidableEq

/-- The compact form of a value, cut after a hundred characters. -/
def Json.preview (v : Json) : String :=
  let cs := v.chars
  if cs.length ≤ 100 then String.ofList cs else String.ofList (cs.take 100) ++ "..."

def Warning.message : Warning → String
  | noConversion source target => s!"No transformation from {source.name} to {target.name}; value left unchanged"
  | unknownConversion id => s!"Transformation '{id}' not found; value left unchanged"
  | failed id value failure => s!"Transformation '{id}' failed on input {value.preview}: {failure.message}"

/-- A value, the cache afterwards, and a warning if the value was left as it was. -/
structure Applied where
  value : Json
  cache : Cache
  warning : Option Warning := none

namespace Conversion

def runCached (t : Conversion) (cache : Cache) (value : Json) (options : Options) : Except Failure Json × Cache :=
  cache.getOrCompute t.id value options fun _ => t.run value options

def apply (t : Conversion) (cache : Cache) (value : Json) (options : Options) : Applied :=
  match t.runCached cache value options with
  | (.ok result, cache) => { value := result, cache := cache }
  | (.error e, cache) => { value := value, cache := cache, warning := some (.failed t.id value e) }

end Conversion

namespace Catalog

/-- Converts a value of one kind into another. Between equal kinds nothing happens. -/
def apply (c : Catalog) (cache : Cache) (source target : Kind) (value : Json) (options : Options) : Applied :=
  if source = target then { value := value, cache := cache }
  else
    match c.find? source target with
    | some t => t.apply cache value options
    | none => { value := value, cache := cache, warning := some (.noConversion source target) }

def applyById (c : Catalog) (cache : Cache) (id : String) (value : Json) (options : Options) : Applied :=
  match c.get? id with
  | some t => t.apply cache value options
  | none => { value := value, cache := cache, warning := some (.unknownConversion id) }

def tryApply (c : Catalog) (cache : Cache) (id : String) (value : Json) (options : Options) :
    Except Error Json × Cache :=
  match c.get? id with
  | none => (.error (.conversionNotFound id), cache)
  | some t =>
    let (result, cache) := t.runCached cache value options
    (result.mapError (.conversionFailed id), cache)

end Catalog

end FieldBridge
