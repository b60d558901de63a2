import Formulary.Token.Basic
import Formulary.Text.Quoted

/-!
# Token listings

A listing is a JSON array with one object for each token.
-/

namespace Formulary
namespace Token

/-- A member of an object in a listing, up to its value. -/
def member (indent : Nat) (name : String) : Text :=
  Text.blanks indent ++ Text.quote (Text.ascii name) ++ Text.ascii ": "

/-- The object of one token. -/
def listingEntry (token : Token) : Text :=
  Text.ascii "  \x7b\n" ++
    member 4 "type" ++ Text.quote (Text.ascii token.kind.name) ++ Text.ascii ",\n" ++
    member 4 "value" ++ Text.quote (Text.escape token.value) ++ Text.ascii ",\n" ++
    member 4 "loc" ++ Text.quote (Text.escape token.location.toText) ++ Text.ascii ",\n" ++
    member 4 "length" ++ Text.ofInt token.location.length ++ Text.ascii "\n" ++
    Text.ascii "  \x7d"

/-- The listing of some tokens. -/
def listing (tokens : List Token) : Text :=
  Text.ascii "[\n" ++ Text.join (Text.ascii ",\n") (tokens.map listingEntry) ++
    (if tokens.isEmpty then [] else Text.ascii "\n") ++ Text.ascii "]\n"

end Token
end Formulary
