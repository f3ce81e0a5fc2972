import LispReader.Application

/-! Requests to a reading position.

Whoever reads a token list by hand asks for the next token, whatever it is or only if it is of a
kind, or for one of the constructs that the stack machine parses. A request that fails takes back
nothing: the next one is served where the failed one stopped. -/
namespace LispReader

inductive Request where
  | advance
  | expect (kind : Kind)
  | application
  | oneExpression
  | parenBody
  deriving DecidableEq, Repr

namespace Request

/-- What a request gives: the token that it passed, or the tree that it read. -/
inductive Value where
  | token (token : Token)
  | tree (tree : ParseTree)
  deriving DecidableEq

/-- A value or a fault, and the position that is left. -/
abbrev Served := Except ParseFault Value × Cursor

/-- A run of the stack machine as the service of a request. -/
def ofResult : Application.Result → Served
  | (.ok t, c) => (.ok (.tree t), c)
  | (.error fault, c) => (.error fault, c)

def serve (c : Cursor) : Request → Served
  | advance => (.ok (.token c.current), c.advance)
  | expect kind =>
    match c.expect kind with
    | .ok (t, c) => (.ok (.token t), c)
    | .error fault => (.error (.refused fault), c)
  | application => ofResult (Application.application c)
  | oneExpression => ofResult (Application.oneExpression c)
  | parenBody => ofResult (Application.parenBody c)

/-- The position behind requests that are served one after the other, whatever becomes of each. -/
def serveAll (c : Cursor) (requests : List Request) : Cursor :=
  requests.foldl (fun c request => (serve c request).2) c

end Request

end LispReader
