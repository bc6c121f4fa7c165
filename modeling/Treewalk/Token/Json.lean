import Treewalk.Text.Json
import Treewalk.Token

/-!
Tokens as JSON objects: the encoder that the command lists tokens with.
-/

namespace Treewalk
namespace Token

/-- A token as an object that tells its kind and its literal. -/
def jsonObject (t : Token) : String :=
  "\x7b\"kind\":" ++ Text.jsonString t.kind.tag ++ ",\"literal\":" ++
    Text.jsonString t.literal ++ "\x7d"

end Token
end Treewalk
