import FieldBridge.Conversion.Options
import FieldBridge.Json.Printer

/-!
# Cache keys

The key of a call is made of the conversion's id, the value and the options, the last
two in canonical form: compact, with sorted members at every depth. A unit separator
stands between the parts.
-/

namespace FieldBridge

def Json.canonical (v : Json) : String := v.normalize.compact

def Options.canonical (o : Options) : String := o.toJson.canonical

def cacheKey (id : String) (value : Json) (options : Options) : String :=
  id ++ "\x1f" ++ value.canonical ++ "\x1f" ++ options.canonical

end FieldBridge
