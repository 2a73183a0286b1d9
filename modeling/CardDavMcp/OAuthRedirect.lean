import CardDavMcp.Urls

namespace CardDavMcp.OAuthRedirect

open Library.Utf8Text Urls

variable (U : UrlCrate)

/-- The hosts on which a redirect may be in cleartext. -/
def isLoopbackHost (host : Text) : Bool :=
  host = "localhost".toList || host = "127.0.0.1".toList || host = "[::1]".toList ||
    host = "::1".toList

def validateRedirectUri (uri : Text) (key : String) : Except String Unit := do
  if trim uri ≠ uri || uri.isEmpty then
    throw s!"{key} entries must be non-empty absolute URLs without surrounding whitespace"
  let some url := U.parse uri | throw s!"invalid {key} redirect URI: {String.ofList uri}"
  if url.scheme = "https".toList then
    if url.hostStr.isNone then
      throw s!"{key} https entries must include a host: {String.ofList uri}"
  else if url.scheme = "http".toList then
    if !isLoopbackHost (url.hostStr.getD []) then
      throw (s!"{key} http entries are only allowed on loopback hosts " ++
        s!"(localhost, 127.0.0.1, [::1]): {String.ofList uri}")
  else
    if url.scheme.isEmpty then
      throw s!"{key} entries must have a scheme: {String.ofList uri}"
  if url.fragment.isSome then
    throw s!"{key} entries must not contain URI fragments: {String.ofList uri}"
  if !url.username.isEmpty || url.password.isSome then
    throw s!"{key} entries must not contain user info: {String.ofList uri}"

def collectUris (key : String) : List Text → List Text → Except String (List Text)
  | uris, [] => .ok uris
  | uris, uri :: rest => do
    validateRedirectUri U uri key
    collectUris key (if uris.contains uri then uris else uris ++ [uri]) rest

/-- The allowlist of a comma-separated text. -/
def parseAllowlist (raw : Text) (key : String) : Except String (List Text) := do
  let listed := ((raw.splitOn ',').map trim).filter (fun uri => !uri.isEmpty)
  let uris ← collectUris U key [] listed
  if uris.isEmpty then throw s!"{key} must contain at least one redirect URI"
  return uris

/-- A native client binds an ephemeral port, so a cleartext loopback entry
matches on every port; all else has to be equal. -/
def matchesLoopbackEntry (allowed : List Text) (uri : Text) : Bool :=
  match U.parse uri with
  | none => false
  | some candidate =>
    if candidate.scheme ≠ "http".toList then false
    else match candidate.hostStr with
      | none => false
      | some host =>
        if !isLoopbackHost host then false
        else allowed.any (fun entry => (U.parse entry).any (fun entry =>
          entry.scheme = "http".toList && entry.hostStr = some host &&
            entry.path = candidate.path && entry.query = candidate.query))

def isAllowedRedirectUri (allowed : List Text) (uri : Text) : Bool :=
  match validateRedirectUri U uri "redirect_uri" with
  | .error _ => false
  | .ok () => allowed.contains uri || matchesLoopbackEntry U allowed uri

end CardDavMcp.OAuthRedirect
