import RestCache.Config.UrlParams

/-!
# The targeted pattern of a URL's own route

The pattern that is built from the parameters of a request looks for one
encoding of each.  It matches the keys of the request's own URL where every
segment is one that is looked for.
-/

namespace RestCache
namespace Config

open Foundation
open RegExpSource
open UriComponent
open Router

/-!
## What is looked for
-/

section Reencoding

variable (lower : CaseMapping) (params : RouteParams)

end Reencoding

variable {lower : CaseMapping} {params : RouteParams} {route : Route}
  {segs : List JsString}

/-!
## Values of one segment
-/

end Config
end RestCache
