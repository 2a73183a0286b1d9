import CardDavMcp.BearerAuth
import CardDavMcp.LastUsed
import CardDavMcp.Library.Executions
import CardDavMcp.ServiceCalls

namespace CardDavMcp.McpRoutes

open Library.Utf8Text Library.Interaction ToolError RateLimit BearerAuth LastUsed ContactTools
  UpcomingBirthdays ServiceCalls
open LogtoOidc (AuthenticatedIdentity LogtoValidationClient ValidationError)
open DavClient (Bytes)

inductive HttpMethod
  | options | get | post | put | delete | head | trace | connect | patch
  | extension (name : Text)
deriving DecidableEq, Repr

/-- A request to one of the routes behind the bearer, with what the middleware
puts into its extensions. -/
structure Request extends HttpRequest where
  method : HttpMethod
  body : Bytes
  extensions : RequestContext := ⟨none, none⟩

/-- The endpoint of the service leaves a message to rmcp, which answers it
itself or calls a tool. -/
inductive McpReply
  | answered (response : Response)
  | call (request : ToolRequest)

/-- All that a request does outside its own handler: the steps of a validation,
the record of last uses, the two limiters, rmcp, and the steps of a tool. -/
inductive Effect (Ip : Type)
  | oidc (e : LogtoOidc.Effect)
  | record (tokenHash : Text) (ip : Option Ip)
  | lastUsed (tokenHash : Text)
  | initializeCheck (bearerHash : Text) (sub : Option Text)
  | mcp (request : Request)
  | tool (e : DavClient.Effect)

abbrev Reply {Ip : Type} : Effect Ip → Type
  | .oidc e => LogtoOidc.Reply e
  | .record _ _ => Unit
  | .lastUsed _ => Option (LastUsedRecord Ip)
  | .initializeCheck _ _ => Except RejectedBy Unit
  | .mcp _ => McpReply
  | .tool e => DavClient.Reply e

structure TokenIntrospectResponse (Ip : Type) where
  userId : Text
  email : Option Text
  name : Option Text
  exp : Option Int
  tokenHash : Text
  lastUsed : Option (LastUsedRecord Ip)
deriving DecidableEq, Repr

inductive Answer (Ip : Type)
  | plain (response : Response)
  | introspection (body : TokenIntrospectResponse Ip)
  | mcp (response : Response)
  | tool (result : Except ErrorData ToolResult)
deriving DecidableEq, Repr

/-- What the routes are made of. Both halves hash a bearer for the log in the
same way. -/
structure Server (Ip : Type) where
  auth : AuthState Ip
  logto : LogtoValidationClient
  service : CardDavMcpService
  /-- What the layer around the routes refuses for its announced length. -/
  oversized : HttpRequest → Bool
  /-- What it answers then. -/
  tooLarge : Response
  tooLarge_status : tooLarge.status = 413
  /-- What the router answers where a path has no handler for the method. -/
  methodNotAllowed : Response
  methodNotAllowed_status : methodNotAllowed.status = 405
  oneHash : auth.tokenHash = service.tokenHash

abbrev Handler (Ip : Type) := Request → Prog (Effect Ip) Reply (Answer Ip)

def ValidationError.toString : ValidationError → String
  | .http message => s!"JWKS fetch/transport error: {message}"
  | .jwksUpstream status => s!"JWKS endpoint returned non-2xx: {status}"

def serverError (body : String) : Response := ⟨500, [], body.toList⟩

variable {Ip : Type} (server : Server Ip)

/-- The middleware around the routes, with the validation of the token in its
steps. -/
def bearerAuth (next : Handler Ip) : Handler Ip := fun request =>
  match extractBearer (request.get "authorization".toList) with
  | none => return .plain server.auth.unauthorized
  | some token => do
    let validated ← (server.logto.validateToken token).embed .oidc (fun _ r => r)
    match server.auth.bearerAuth (fun _ => validated.mapError ValidationError.toString)
      request.toHttpRequest with
    | .refused response => return .plain response
    | .accepted none identity token =>
      next { request with extensions := ⟨some token, some identity⟩ }
    | .accepted (some recording) identity token => do
      let _ ← perform (Effect.record recording.tokenHash recording.clientIp)
      next { request with extensions := ⟨some token, some identity⟩ }

def isFreshMcpSessionRequest (request : Request) : Bool :=
  request.method = .post && (request.get "mcp-session-id".toList).isNone

def tooManyInitializes : Response :=
  ⟨429, [], "too many MCP initialize requests; try again later\n".toList⟩

def initializeRateLimit (next : Handler Ip) : Handler Ip := fun request =>
  if !isFreshMcpSessionRequest request then next request
  else match request.extensions.token with
    | none =>
      return .plain (serverError "authenticated request missing token extension\n")
    | some token =>
      match request.extensions.identity with
      | none =>
        return .plain (serverError "authenticated request missing identity extension\n")
      | some identity => do
        match ← perform
          (Effect.initializeCheck (server.auth.tokenHash token) (some identity.userId)) with
        | .error _ => return .plain tooManyInitializes
        | .ok () => next request

/-- The handler of `/token/introspect`. -/
def introspect : Handler Ip := fun request =>
  match request.extensions.identity with
  | none => return .plain (serverError "auth middleware did not populate identity\n")
  | some identity =>
    match request.extensions.token with
    | none => return .plain (serverError "auth middleware did not populate access token\n")
    | some token => do
      let tokenHash := server.auth.tokenHash token
      let lastUsed ← perform (Effect.lastUsed tokenHash)
      return .introspection {
        userId := identity.userId
        email := identity.email
        name := identity.name
        exp := identity.exp
        tokenHash
        lastUsed }

/-- The endpoint `/mcp`. A tool sees the extensions of the request that calls it. -/
def mcpService (chrono : Chrono) : Handler Ip := fun request => do
  match ← perform (Effect.mcp request) with
  | .answered response => return .mcp response
  | .call tool => do
    let call : ServiceCall := ⟨request.extensions, tool⟩
    return .tool (← (call.run server.service chrono).run.embed .tool (fun _ r => r))

/-- The two routes. -/
def route (chrono : Chrono) : Handler Ip := fun request =>
  if request.path = "/token/introspect".toList then
    if request.method = .get ∨ request.method = .head then introspect server request
    else return .plain server.methodNotAllowed
  else mcpService server chrono request

/-- The routes behind the bearer, in their layers. -/
def serve (chrono : Chrono) : Handler Ip := fun request =>
  if server.oversized request.toHttpRequest then return .plain server.tooLarge
  else bearerAuth server (initializeRateLimit server (route server chrono)) request

end CardDavMcp.McpRoutes
