import CardDavMcp.ToolError
import CardDavMcp.Library.Utf8Text

namespace CardDavMcp.DavError

open Library.Utf8Text ToolError

inductive CardDavError
  | unauthorized
  | notFound
  | conflict
  | tooLarge
  | invalidHref (href : Text)
  | invalidData (message : String)
  | http (message : String)
  | upstream (status : Nat)
  | xml (message : String)
deriving DecidableEq, Repr

def CardDavError.toString : CardDavError → String
  | .unauthorized => "not authenticated to Stalwart CardDAV (token expired or bearer rejected)"
  | .notFound => "CardDAV resource was not found"
  | .conflict => "CardDAV write conflicted with the current ETag"
  | .tooLarge => "CardDAV response exceeds the configured size cap"
  | .invalidHref href => s!"unsafe or invalid DAV href: {String.ofList href}"
  | .invalidData message => s!"invalid CardDAV data: {message}"
  | .http message => s!"CardDAV transport error: {message}"
  | .upstream status => s!"CardDAV endpoint returned non-success status {status}"
  | .xml message => s!"invalid CardDAV XML: {message}"

/-- The error of a tool call that a client error becomes. -/
def mapCarddavErr : CardDavError → ErrorData
  | .unauthorized => ⟨AUTH_EXPIRED_CODE, "auth expired or Stalwart rejected bearer; reconnect"⟩
  | .notFound => invalidParams CardDavError.notFound.toString
  | .conflict => invalidParams CardDavError.conflict.toString
  | .tooLarge => invalidParams CardDavError.tooLarge.toString
  | .invalidHref href => invalidParams (CardDavError.invalidHref href).toString
  | .invalidData message => invalidParams (CardDavError.invalidData message).toString
  | other => internalError other.toString

end CardDavMcp.DavError
