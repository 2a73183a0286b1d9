import CardDavMcp.Library.Utf8Text

namespace CardDavMcp.ToolError

/-- The error of a tool call: a JSON-RPC code and the text shown to the
caller. -/
structure ErrorData where
  code : Int
  message : String
deriving DecidableEq, Repr

def RATE_LIMITED_CODE : Int := -32029
def AUTH_EXPIRED_CODE : Int := -32028

def invalidParams (message : String) : ErrorData := ⟨-32602, message⟩
def internalError (message : String) : ErrorData := ⟨-32603, message⟩

end CardDavMcp.ToolError
