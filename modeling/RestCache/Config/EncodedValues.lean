import RestCache.Config.TargetedPattern
import RestCache.Foundation.UriDecoding

/-!
# Encodings of values, read back

The router decodes what a client sent, and a purge encodes the value again.  A
text that may stand for a value decodes to the value, unless the value itself
holds what reads as an escape: then the text decodes to something shorter.
-/

namespace RestCache
namespace Config

open Foundation
open UriComponent

end Config
end RestCache
