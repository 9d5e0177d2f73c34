import UsageBilling.Lib.Txn
import UsageBilling.Lib.Table
import UsageBilling.Store
import UsageBilling.Consumption
import UsageBilling.CustomerService
import UsageBilling.Js
import UsageBilling.Routes
import UsageBilling.Lib.Pool
import UsageBilling.Server
import UsageBilling.Audit
import UsageBilling.Idempotency
import UsageBilling.Lib.Linear
import UsageBilling.Lib.WriteLock
import UsageBilling.Statements
import UsageBilling.Lib.Seek
import UsageBilling.Pagination
import UsageBilling.ConsumeForm
import UsageBilling.Verdict
import UsageBilling.Isolation
import UsageBilling.Serial
import UsageBilling.Race
import UsageBilling.Commute
import UsageBilling.Lib.InfiniteQuery
import UsageBilling.UsageHistory
import UsageBilling.Seed
import UsageBilling.Reseed
import UsageBilling.Effect
import UsageBilling.Cursor
import UsageBilling.Status
import UsageBilling.Readable
import UsageBilling.CreditForm
import UsageBilling.Lib.Compose
import UsageBilling.Prices
import UsageBilling.Lib.Mortal
import UsageBilling.Lib.Fair
import UsageBilling.Api
import UsageBilling.Crash
import UsageBilling.Liveness
import UsageBilling.Dashboard
import UsageBilling.Submission
import UsageBilling.Lib.Url
import UsageBilling.Wire
import UsageBilling.LoadTest
import UsageBilling.LoadVerdict
import UsageBilling.Lib.Script
import UsageBilling.LiveSeed
import UsageBilling.Accounts
