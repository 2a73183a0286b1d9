import CardDavMcp.ContactSearch
import CardDavMcp.UpcomingBirthdays

namespace CardDavMcp.ServiceCalls

open Library.Utf8Text Library.Interaction ToolError RateLimit DavError DavClient ContactTools
  ReadTools ContactSearch UpcomingBirthdays
open LogtoOidc (AuthenticatedIdentity)

structure WhoamiResult where
  userId : Text
  email : Option Text
  name : Option Text
  principalHref : Text
  addressbookHomeHref : Text
deriving DecidableEq, Repr

structure AddressBookSummary where
  id : Text
  href : Text
  name : Text
  ctag : Option Text
deriving DecidableEq, Repr

structure AddressBooksResult where
  addressBooks : List AddressBookSummary
deriving DecidableEq, Repr

structure ListContactsParams where
  addressbookHref : Text
  limit : Nat := 25
deriving DecidableEq, Repr

/-- The last part of an href that is not empty, or else all of it. -/
def hrefId (href : Text) : Text :=
  (((trimEndMatches '/' href).splitOn '/').reverse.find? (fun part => !part.isEmpty)).getD href

def addressBookSummary (book : DavAddressBook) : AddressBookSummary where
  id := hrefId book.href
  href := book.href
  name := book.displayName
  ctag := book.ctag

section Tools

variable (s : CardDavMcpService) (ctx : RequestContext)

def whoami : Tool WhoamiResult :=
  s.reactToAuthExpiry ctx do
    s.rateLimitCheck ctx .read
    let token ← settle (tokenFromCtx ctx)
    let identity ← settle (identityFromCtx ctx)
    let discovery ← (s.carddav.discover token).adapt mapCarddavErr
    return {
      userId := identity.userId
      email := identity.email
      name := identity.name
      principalHref := discovery.principalHref
      addressbookHomeHref := discovery.addressbookHomeHref }

def listAddressBooks : Tool AddressBooksResult :=
  s.reactToAuthExpiry ctx do
    s.rateLimitCheck ctx .read
    let token ← settle (tokenFromCtx ctx)
    let books ← (s.carddav.listAddressBooks token).adapt mapCarddavErr
    return ⟨books.map addressBookSummary⟩

def listContacts (params : ListContactsParams) : Tool ContactsResult :=
  s.reactToAuthExpiry ctx do
    s.rateLimitCheck ctx .read
    let limit ← settle (validatedLimit params.limit)
    let token ← settle (tokenFromCtx ctx)
    let contacts ← (s.carddav.listContacts token params.addressbookHref).adapt mapCarddavErr
    return ⟨(contacts.take limit).map contactSummary⟩

end Tools

/-- A request for one of the eight tools. -/
inductive ToolRequest
  | whoami
  | listAddressBooks
  | listContacts (params : ListContactsParams)
  | searchContacts (params : SearchContactsParams)
  | upcomingBirthdays (params : UpcomingBirthdaysParams)
  | createContact (params : CreateContactParams)
  | updateContact (params : UpdateContactParams)
  | deleteContact (params : DeleteContactParams)
deriving DecidableEq, Repr

inductive ToolResult
  | whoami (result : WhoamiResult)
  | addressBooks (result : AddressBooksResult)
  | contacts (result : ContactsResult)
  | birthdays (result : Option UpcomingBirthdaysResult)
  | written (result : ContactWriteResult)
  | deleted (result : DeleteContactResult)
deriving DecidableEq, Repr

/-- A call as the router hands it on: what the middleware left, and the request. -/
structure ServiceCall where
  ctx : RequestContext
  request : ToolRequest
deriving DecidableEq, Repr

/-- The bucket that a tool is charged to. -/
def ToolRequest.category : ToolRequest → Category
  | .whoami | .listAddressBooks | .listContacts _ | .searchContacts _ | .upcomingBirthdays _ =>
    .read
  | .createContact _ | .updateContact _ | .deleteContact _ => .write

/-- The hint in the annotations of a tool. -/
def ToolRequest.readOnlyHint : ToolRequest → Bool
  | .whoami | .listAddressBooks | .listContacts _ | .searchContacts _ | .upcomingBirthdays _ => true
  | .createContact _ | .updateContact _ | .deleteContact _ => false

/-- The tool router. -/
def ServiceCall.run (s : CardDavMcpService) (chrono : Chrono) (call : ServiceCall) :
    Tool ToolResult :=
  match call.request with
  | .whoami => do return .whoami (← ServiceCalls.whoami s call.ctx)
  | .listAddressBooks => do return .addressBooks (← ServiceCalls.listAddressBooks s call.ctx)
  | .listContacts params => do return .contacts (← ServiceCalls.listContacts s call.ctx params)
  | .searchContacts params => do
    return .contacts (← ContactSearch.searchContacts s call.ctx params)
  | .upcomingBirthdays params => do
    return .birthdays (← UpcomingBirthdays.upcomingBirthdays s chrono call.ctx params)
  | .createContact params => do return .written (← s.createContact call.ctx params)
  | .updateContact params => do return .written (← s.updateContact call.ctx params)
  | .deleteContact params => do return .deleted (← s.deleteContact call.ctx params)

end CardDavMcp.ServiceCalls
