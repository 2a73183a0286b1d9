import CardDavMcp.VcardText
import CardDavMcp.VcardFold
import CardDavMcp.VcardFolding
import CardDavMcp.Vcard
import CardDavMcp.VcardLines
import CardDavMcp.VcardRoundTrip
import CardDavMcp.VcardComponents
import CardDavMcp.VcardStructure
import CardDavMcp.VcardGrammar
import CardDavMcp.Library.Runs
import CardDavMcp.Library.Table
import CardDavMcp.OAuthIntegrity
import CardDavMcp.OAuthParameters
import CardDavMcp.MultistatusTree
import CardDavMcp.Library.Interaction
import CardDavMcp.ServerLoad
import CardDavMcp.ValidationCache
import CardDavMcp.BearerConfinement
import CardDavMcp.SearchQuery
import CardDavMcp.ContactSearch
import CardDavMcp.UpcomingBirthdays
import CardDavMcp.UrlReferences
import CardDavMcp.WriteHrefs
import CardDavMcp.ResponseLimits
import CardDavMcp.LostUpdates
import CardDavMcp.JwksRefresh
import CardDavMcp.SessionCap
import CardDavMcp.BoundedMaps
import CardDavMcp.CardUpdates
import CardDavMcp.NextBirthday
import CardDavMcp.BirthdayGrammar
import CardDavMcp.RedirectAllowlist
import CardDavMcp.InitializeLimit
import CardDavMcp.RateLimitEviction
import CardDavMcp.RefusedCalls
import CardDavMcp.BearerAuth
import CardDavMcp.LostProperties
import CardDavMcp.HomeSet
import CardDavMcp.DiscoveryCache
import CardDavMcp.StoredCards
import CardDavMcp.Introspection
import CardDavMcp.SessionLoad
