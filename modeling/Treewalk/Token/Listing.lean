import Treewalk.Text.Listing
import Treewalk.Token

/-!
Token listings: each token on a line of its own, as it is encoded.
-/

namespace Treewalk
namespace Token

def listing (encode : Token → String) (tokens : List Token) : String :=
  Text.lines (tokens.map encode)

end Token
end Treewalk
