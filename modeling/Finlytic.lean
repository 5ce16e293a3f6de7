import Finlytic.Lib.Pool
import Finlytic.Lib.Table
import Finlytic.UserManagement.AuthService
import Finlytic.UserManagement.Transitions
import Finlytic.UserManagement.Families
import Finlytic.UserManagement.Revocation
import Finlytic.UserManagement.Issuance
import Finlytic.Web.Client
import Finlytic.Web.SingleFlight
import Finlytic.EmailIngestion.Accounts
import Finlytic.EmailIngestion.Reauth
import Finlytic.EmailIngestion.BlobBeforePointer
import Finlytic.EmailIngestion.MailSync
import Finlytic.EmailIngestion.NoGap
import Finlytic.Gateway.Proxy
import Finlytic.Gateway.Framing
import Finlytic.AuthLib.JwtAuthGuard
import Finlytic.Gateway.Agreement
import Finlytic.Lib.Resolve
import Finlytic.Gateway.RateLimit
import Finlytic.Lib.Posix
import Finlytic.Gateway.Server
import Finlytic.Gateway.Answers
import Finlytic.Gateway.Confinement
import Finlytic.Gateway.Slices
import Finlytic.EmailIngestion.SyncEvents
import Finlytic.Lib.Separator
import Finlytic.Web.Sse
import Finlytic.Web.EventStream
import Finlytic.EmailIngestion.OAuthState
import Finlytic.EmailIngestion.SingleUse
import Finlytic.EmailIngestion.Encryption
import Finlytic.EmailIngestion.Envelopes
import Finlytic.EmailIngestion.TokenVault
import Finlytic.EmailIngestion.VaultInvariant
import Finlytic.EmailIngestion.Retries
import Finlytic.EmailIngestion.Rebaseline
import Finlytic.EmailIngestion.Messages
import Finlytic.EmailIngestion.MessagePrivacy
import Finlytic.Gateway.Dispatch
import Finlytic.Gateway.Limits
import Finlytic.Gateway.Windows
import Finlytic.EmailIngestion.Migration
import Finlytic.EmailIngestion.Pagination
import Finlytic.EmailIngestion.Disabled
import Finlytic.UserManagement.Failures
import Finlytic.Lib.Silent
import Finlytic.UserManagement.Cleanup
import Finlytic.EmailIngestion.SyncQueue
import Finlytic.Web.Logout
import Finlytic.Web.Frames
import Finlytic.Gateway.RetryAfter
import Finlytic.Lib.Paths
import Finlytic.Gateway.Containment
import Finlytic.Gateway.CacheControl
import Finlytic.Lib.Calls
import Finlytic.EmailIngestion.ZohoProvider
import Finlytic.EmailIngestion.ZohoRegions
import Finlytic.EmailIngestion.ZohoChanges
import Finlytic.EmailIngestion.IngestAll
import Finlytic.Gateway.Verification
import Finlytic.EmailIngestion.StoredMail
import Finlytic.EmailIngestion.Overlap
import Finlytic.Gateway.Exchange
import Finlytic.EmailIngestion.GmailProvider
import Finlytic.EmailIngestion.SyncOverHttp
import Finlytic.EmailIngestion.ServedMailboxes
import Finlytic.EmailIngestion.ConnectFlow
import Finlytic.EmailIngestion.ConnectOwnership
import Finlytic.UserManagement.RegisteredAccounts
import Finlytic.Web.LiveStreams
import Finlytic.Web.LiveUpdates
import Finlytic.Web.Reconnects
