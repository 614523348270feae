import Tle.Lib.Run
import Tle.Lib.Lease
import Tle.Queue.Db
import Tle.Queue.System
import Tle.Queue.Lemmas.Calls
import Tle.Queue.Lemmas.Fencing
import Tle.Queue.Lemmas.Rejudge
import Tle.Queue.Theorems
import Tle.Queue.Connections
import Tle.Queue.Lemmas.Transactions
import Tle.Queue.Lemmas.JobRows
import Tle.Grade.Lemmas.Tokens
import Tle.Grade.Stat
import Tle.Grade.Case
import Tle.Grade.Lemmas.Case
import Tle.Grade.Lemmas.Independence
import Tle.Grade.Theorems
import Tle.Grade.Lemmas.Output
import Tle.Grade.Loop
import Tle.Grade.Lemmas.Scoring
import Tle.Grade.Lemmas.Brackets
import Tle.Grade.ScoreTheorems
import Tle.Grade.Run
import Tle.Lib.Numerals
import Tle.Grade.Lemmas.Named
import Tle.Grade.Lemmas.Markers
import Tle.Grade.OutcomeTheorems
import Tle.Grade.MonotoneTheorems
import Tle.Grade.JuryTheorems
import Tle.Grade.AcceptedTheorems
import Tle.Grade.GroupFetch
import Tle.Grade.Fork
import Tle.Grade.ForkTheorems
import Tle.Communicate.Theorems
import Tle.Lib.Json
import Tle.Tasks.Manifest
import Tle.Tasks.Store
import Tle.Tasks.Lemmas.Groups
import Tle.Tasks.Theorems
import Tle.Tasks.Points
import Tle.Tasks.ReloadTheorems
import Tle.Lib.Nesting
import Tle.Html.Page
import Tle.Html.Markdown
import Tle.Html.Lemmas.Parts
import Tle.Html.Lemmas.Tags
import Tle.Html.MarkdownTheorems
import Tle.Html.Views
import Tle.Html.ViewTheorems
import Tle.Web.Form
import Tle.Web.FormTheorems
import Tle.Lib.Cuts
import Tle.Web.Lemmas.Numbers
import Tle.Web.Lemmas.Ids
import Tle.Web.ChunkTheorems
import Tle.Queue.RequeueTheorems
import Tle.Grade.FailedCaseTheorems
import Tle.Web.Lemmas.Auth
import Tle.Web.AttributionTheorems
import Tle.Lib.Cooldown
import Tle.Web.RateLimit
import Tle.Web.RateLimitTheorems
import Tle.Lib.Prog
import Tle.Schema.Init
import Tle.Schema.Lemmas.Columns
import Tle.Schema.Lemmas.Stages
import Tle.Schema.Lemmas.Versions
import Tle.Schema.StartupTheorems
import Tle.Schema.CrashTheorems
import Tle.Web.Site
import Tle.Web.Get
import Tle.Html.Lemmas.Readback
import Tle.Html.Lemmas.Steps
import Tle.Html.LineTheorems
import Tle.Html.TableTheorems
import Tle.Web.PrivacyTheorems
import Tle.Web.VisibilityTheorems
import Tle.Lib.Strings
import Tle.Web.HeaderTheorems
import Tle.Queue.ClaimTheorems
import Tle.Lib.Cursor
import Tle.Queue.Lemmas.Submissions
import Tle.Web.Paging
import Tle.Web.PagingTheorems
import Tle.Web.NumberTheorems
import Tle.Web.LinkTheorems
import Tle.Accounts.Password
import Tle.Accounts.PasswordTheorems
import Tle.Tasks.Lemmas.Loading
import Tle.Tasks.OrderTheorems
import Tle.Lib.Pointer
import Tle.Web.Pointers
import Tle.Web.PointerTheorems
import Tle.Lib.Heap
import Tle.Grade.TokenBuffer
import Tle.Grade.Lemmas.TokenBuffer
import Tle.Grade.TokenTheorems
import Tle.Lib.InPlace
import Tle.Grade.JudgeFile
import Tle.Grade.Lemmas.JudgeFile
import Tle.Grade.JudgeFileTheorems
import Tle.Queue.Tokens
import Tle.Queue.TokenTheorems
import Tle.Lib.Escape
import Tle.Html.EscapeTheorems
import Tle.Lib.Descriptors
import Tle.Grade.Descriptors
import Tle.Grade.Lemmas.Descriptors
import Tle.Grade.DescriptorTheorems
import Tle.Queue.Workers
import Tle.Queue.Lemmas.Workers
import Tle.Queue.WorkerTheorems
import Tle.Queue.FairTheorems
import Tle.Queue.DrainTheorems
import Tle.Lib.Comp
import Tle.Lib.Ledger
import Tle.Lib.JsonText
import Tle.Cjson.Parse
import Tle.Cjson.Tree
import Tle.Cjson.Lemmas.Buffer
import Tle.Cjson.Lemmas.Memory
import Tle.Cjson.Lemmas.Strings
import Tle.Cjson.Lemmas.Values
import Tle.Cjson.Lemmas.Containers
import Tle.Cjson.SafetyTheorems
import Tle.Cjson.Lemmas.Reading
import Tle.Cjson.Lemmas.ReadStrings
import Tle.Cjson.Lemmas.ReadNumbers
import Tle.Cjson.Lemmas.ReadValues
import Tle.Cjson.TextTheorems
import Tle.Accounts.Sessions
import Tle.Accounts.System
import Tle.Accounts.Lemmas.Store
import Tle.Accounts.Lemmas.Changes
import Tle.Accounts.Lemmas.Runs
import Tle.Accounts.RegistrationTheorems
import Tle.Accounts.SessionTheorems
import Tle.Accounts.CookieTheorems
import Tle.Lib.Blocks
import Tle.Md5.Digest
import Tle.Md5.Lemmas.Update
import Tle.Md5.DigestTheorems
import Tle.Md5.LegacyTheorems
import Tle.Lib.Growth
import Tle.Sds.Strings
import Tle.Sds.Lemmas.Strings
import Tle.Sds.Lemmas.Append
import Tle.Sds.Lemmas.New
import Tle.Sds.Lemmas.Format
import Tle.Sds.AppendTheorems
import Tle.Sds.Html
import Tle.Sds.HtmlTheorems
import Tle.Tasks.Lemmas.Names
import Tle.Web.ConfinementTheorems
