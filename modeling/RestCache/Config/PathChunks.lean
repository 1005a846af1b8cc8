import RestCache.Config.EncodedValues
import RestCache.Config.MixedPattern
import RestCache.Router.Dispatch

/-!
# Targeted patterns slash by slash

For a route path of texts and plain parameters the source of a targeted pattern
is a sequence of chunks, a slash in front of each: the texts, and the parts of
the values between their slashes.  Collapsing double slashes drops empty chunks.
-/

namespace RestCache
namespace Config

open Foundation
open RegExpSource
open UriComponent
open Router

/-!
## Plain routes
-/

def isPlainPart : Part -> Bool
  | Part.text static => static ≠ [] && static.all isPathText
  | Part.param name => isName name
  | Part.plus _ => false

/-- What stands between two slashes of a source. -/
inductive Chunk where
  | text (static : JsString)
  | value (part : JsString)
deriving DecidableEq

def Chunk.source : Chunk -> JsString
  | Chunk.text static => static
  | Chunk.value part => paramToPattern part

section Route

variable (params : RouteParams)

end Route

variable {lower : CaseMapping} {params : RouteParams} {route : Route}

/-!
## The source of a value
-/

end Config
end RestCache
