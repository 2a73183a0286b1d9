import CardDavMcp.OAuthProxy

namespace CardDavMcp.OAuthMetadata

open Library.Utf8Text Urls OAuthRedirect

inductive Json
  | null
  | bool (b : Bool)
  | number (literal : Text)
  | string (s : Text)
  | array (items : List Json)
  | object (fields : List (Text × Json))

def Json.get (key : Text) : Json → Option Json
  | .object fields => fields.lookup key
  | _ => none

def Json.asArray : Json → Option (List Json)
  | .array items => some items
  | _ => none

def Json.asStr : Json → Option Text
  | .string s => some s
  | _ => none

/-- What registration reads of the configuration. -/
structure Config where
  dcrClientId : Option Text
  oauthRedirectUris : List Text

inductive RegisterReply
  | text (status : Nat) (body : String)
  | json (status : Nat) (body : Json)

/-- The redirect URIs that a registration asks for: the strings of the array,
if there is one. -/
def requestedUris (body : Option Json) : List Text :=
  (((body.bind (Json.get "redirect_uris".toList)).bind Json.asArray).map
    (fun items => items.filterMap Json.asStr)).getD []

/-- The one client that every registration is given. -/
def registration (clientId : Text) (redirectUris : List Text) (now : Int) : Json :=
  .object
    [("client_id".toList, .string clientId),
      ("token_endpoint_auth_method".toList, .string "none".toList),
      ("grant_types".toList, .array
        [.string "authorization_code".toList, .string "refresh_token".toList]),
      ("response_types".toList, .array [.string "code".toList]),
      ("redirect_uris".toList, .array (redirectUris.map .string)),
      ("scope".toList, .string "openid profile email offline_access".toList),
      ("client_id_issued_at".toList, .number (toString now).toList)]

/-- `POST /register`. -/
def register (U : UrlCrate) (cfg : Config) (body : Option Json) (now : Int) : RegisterReply :=
  match cfg.dcrClientId with
  | none => .text 404 "dynamic client registration is not configured\n"
  | some clientId =>
    let redirectUris := requestedUris body
    if redirectUris.any (fun uri => !isAllowedRedirectUri U cfg.oauthRedirectUris uri) then
      .text 400 "unregistered redirect_uri\n"
    else .json 201 (registration clientId redirectUris now)

theorem get_single (key : Text) (value : Json) :
    (Json.object [(key, value)]).get key = some value := by
  simp [Json.get]

theorem requestedUris_array (uris : List Text) :
    requestedUris
    (some (.object [("redirect_uris".toList, .array (uris.map .string))])) = uris := by
  have hstrings : (uris.map Json.string).filterMap Json.asStr = uris := by
    rw [List.filterMap_map]
    exact List.filterMap_some
  rw [requestedUris, Option.bind_some, get_single]
  exact hstrings

end CardDavMcp.OAuthMetadata
