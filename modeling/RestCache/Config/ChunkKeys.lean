import RestCache.Config.PathChunks

/-!
# The keys that chunks match

A key is matched from left to right, and a dot in a text stands for any
character.  Where no value holds a slash, every chunk takes its own segment;
where no text holds a dot, the chunks that are left take one segment each.
-/

namespace RestCache
namespace Config

open Foundation
open RegExpSource
open Router

def Chunk.Takes : Chunk -> JsString -> Prop
  | Chunk.text static, s =>
      Unanchored static ∧ s.length = static.length ∧
        ('.' ∉ static -> s = static.map Char.toLower)
  | Chunk.value part, s => LowerEncodes (Encodes isPathLiteral part) s

section Match

variable {chunk : Chunk} {chunks : List Chunk} {seg suffix : JsString}
  {segs : List JsString}

end Match

end Config
end RestCache
