import ServeProof.Amounts
import ServeProof.Approval
import ServeProof.Attribution
import ServeProof.Audit
import ServeProof.Broadcast
import ServeProof.Distribution
import ServeProof.Failure
import ServeProof.Faithful
import ServeProof.Finality
import ServeProof.PaidOnce
import ServeProof.Onchain.Isolation
import ServeProof.Effective
import ServeProof.Identities
import ServeProof.InStep
import ServeProof.Gate
import ServeProof.OneBit
import ServeProof.Authorized
import ServeProof.Basis
import ServeProof.Connection
import ServeProof.Consent
import ServeProof.Conservation
import ServeProof.Corrections
import ServeProof.Credited
import ServeProof.Reported
import ServeProof.Revocation
import ServeProof.Rotation
import ServeProof.RowOrder
import ServeProof.Shares
import ServeProof.Skipped
import ServeProof.Stale
import ServeProof.Summaries
import ServeProof.Tenancy
import ServeProof.Agreement
import ServeProof.Rollup
import ServeProof.Staffing.Headcount
import ServeProof.Staffing.Closing
import ServeProof.Staffing.RecordedWork
import ServeProof.Staffing.Vacancy
import ServeProof.Interleave.Ends
import ServeProof.Guesses
import ServeProof.LoginGuesses
import ServeProof.Redeemed
import ServeProof.OrderTips
import ServeProof.TipWindow
import ServeProof.Reimport
import ServeProof.Resolution
import ServeProof.Buckets
import ServeProof.Assets
import ServeProof.Versions
import ServeProof.DefaultWallet
import ServeProof.Gaps
import ServeProof.Timeline
import ServeProof.RailInference
import ServeProof.Sources.CsvLine
import ServeProof.Base58
import ServeProof.SignedIn
import ServeProof.Recovery
import ServeProof.Sources.CsvFile
import ServeProof.Received
import ServeProof.Callback
