import Gatekeeper.Lib.Interaction
import Gatekeeper.Lib.TwoRuns
import Gatekeeper.Lib.Footprint
import Gatekeeper.Lib.EventLoop
import Gatekeeper.Lib.Cell
import Gatekeeper.Lib.Refinement
import Gatekeeper.Lib.Memo
import Gatekeeper.Lib.Transactions
import Gatekeeper.Lib.Encoding
import Gatekeeper.Lib.Sha256
import Gatekeeper.Lib.Text
import Gatekeeper.Lib.Unsigned
import Gatekeeper.Lib.Base64
import Gatekeeper.Lib.Pattern
import Gatekeeper.Lib.Percent
import Gatekeeper.Lib.ExpiringSet
import Gatekeeper.Lib.Paging
import Gatekeeper.Lib.Machine
import Gatekeeper.Lib.Json
import Gatekeeper.Lib.Double
import Gatekeeper.Lib.JsValue
import Gatekeeper.Lib.JsValueTheorems
import Gatekeeper.Lib.Binary64
import Gatekeeper.Lib.JsNumber
import Gatekeeper.Lib.NumberText
import Gatekeeper.Lib.NumberReading
import Gatekeeper.Lib.WholeText
import Gatekeeper.Lib.EcmaJson
import Gatekeeper.Lib.KeyOrder
import Gatekeeper.Lib.EcmaOps
import Gatekeeper.Lib.ValueEmbedding
import Gatekeeper.Lib.Parsed
import Gatekeeper.Lib.Bitstring
import Gatekeeper.Gate.Basic
import Gatekeeper.Gate.Rules
import Gatekeeper.Gate.RulesTheorems
import Gatekeeper.Gate.Host
import Gatekeeper.Gate.Execute
import Gatekeeper.Gate.Executions
import Gatekeeper.Gate.ExecuteTheorems
import Gatekeeper.Gate.SampleTenant
import Gatekeeper.Gate.Authorisation
import Gatekeeper.Gate.Sessions
import Gatekeeper.Gate.Nonces
import Gatekeeper.Gate.Pools
import Gatekeeper.Gate.Retries
import Gatekeeper.Gate.GateCli
import Gatekeeper.Gate.Reasons
import Gatekeeper.Gate.Oracle
import Gatekeeper.Gate.EntryPoints
import Gatekeeper.Gate.Noninterference
import Gatekeeper.Gate.Spend
import Gatekeeper.Gate.Velocity
import Gatekeeper.Gate.Component
import Gatekeeper.Gate.Provenance
import Gatekeeper.Gate.SpendRaces
import Gatekeeper.Gate.Bindings
import Gatekeeper.Gate.Tightening
import Gatekeeper.Agent.Attempts
import Gatekeeper.Agent.X402
import Gatekeeper.Agent.X402Theorems
import Gatekeeper.Agent.Cents
import Gatekeeper.Agent.Mandated
import Gatekeeper.Agent.SamplePaywall
import Gatekeeper.Agent.Prices
import Gatekeeper.Agent.Payments
import Gatekeeper.Agent.Tokens
import Gatekeeper.Agent.GateInput
import Gatekeeper.Agent.Setup
import Gatekeeper.Agent.Provisioning
import Gatekeeper.Agent.SeededMandate
import Gatekeeper.Agent.EnclaveProof
import Gatekeeper.Agent.ProofPassed
import Gatekeeper.Agent.CredentialBinding
import Gatekeeper.Agent.Engine
import Gatekeeper.Agent.LocalGate
import Gatekeeper.Agent.EngineTheorems
import Gatekeeper.Agent.WebBotAuth
import Gatekeeper.Agent.A2aAuth
import Gatekeeper.Agent.A2aAuthTheorems
import Gatekeeper.Agent.SignedRequests
import Gatekeeper.Agent.SampleCaller
import Gatekeeper.Agent.Freshness
import Gatekeeper.Agent.Replays
import Gatekeeper.Agent.Received
import Gatekeeper.Agent.Coverage
import Gatekeeper.Agent.Callers
import Gatekeeper.Agent.StatusList
import Gatekeeper.Agent.SampleList
import Gatekeeper.Agent.StatusListTheorems
import Gatekeeper.Agent.PublishedLists
import Gatekeeper.Agent.Revocation
import Gatekeeper.Agent.PublishedRevocations
import Gatekeeper.Agent.CardSignature
import Gatekeeper.Agent.CardSignatureTheorems
import Gatekeeper.Agent.SignedCards
import Gatekeeper.Agent.Exchange
import Gatekeeper.Agent.ExchangeTheorems
import Gatekeeper.Agent.SamplePayment
import Gatekeeper.Agent.PaidRequests
import Gatekeeper.Agent.Paywall
import Gatekeeper.Agent.Digests
import Gatekeeper.Agent.Preimages
import Gatekeeper.Agent.PeerCards
import Gatekeeper.Agent.Activity
import Gatekeeper.Agent.TaskRequests
import Gatekeeper.Agent.A2aServer
import Gatekeeper.Agent.ModelAgreement
import Gatekeeper.Agent.DidWeb
import Gatekeeper.Agent.Discovery
import Gatekeeper.Agent.PublishedCards
import Gatekeeper.Agent.Disclosure
import Gatekeeper.Agent.Interference
import Gatekeeper.Agent.Ledger
