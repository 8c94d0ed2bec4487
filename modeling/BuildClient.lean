import BuildClient.Text.Blank
import BuildClient.Text.Form
import BuildClient.Text.Base64
import BuildClient.Text.Digit
import BuildClient.Text.Capital
import BuildClient.Text.Quoted
import BuildClient.Number.Shortest
import BuildClient.Number.Number
import BuildClient.Number.Numeral
import BuildClient.Json.Parser
import BuildClient.Json.Printer
import BuildClient.Wire.Document
import BuildClient.Url.Address
import BuildClient.Url.Target
import BuildClient.Operations
import BuildClient.Settings.Settings
import BuildClient.Query
import BuildClient.Labels
import BuildClient.Failure
import BuildClient.Log.Line
import BuildClient.Log.Setup
import BuildClient.Main
import BuildClient.CommandLine.Sample
import BuildClient.Proofs.Reaper
import BuildClient.Proofs.Deletion
import BuildClient.Proofs.Naming
import BuildClient.Proofs.RoundTrip
import BuildClient.Proofs.Lossless
import BuildClient.Proofs.Faults
import BuildClient.Proofs.Query
import BuildClient.Proofs.Ownership
import BuildClient.Proofs.Exchange
import BuildClient.Proofs.LocalFirst
import BuildClient.Proofs.Leaks
import BuildClient.Proofs.Escaping
import BuildClient.Proofs.Url.Form
import BuildClient.Proofs.Selector
import BuildClient.Proofs.ExitCode
import BuildClient.Proofs.Places
import BuildClient.Proofs.Secrecy
import BuildClient.Proofs.Precedence
import BuildClient.Proofs.StartBinary
import BuildClient.Proofs.Token
import BuildClient.Proofs.Iteration
import BuildClient.Proofs.Posting
import BuildClient.Proofs.Refusals
import BuildClient.Proofs.Decoding
import BuildClient.Proofs.Limits
import BuildClient.Proofs.Configuration
import BuildClient.Proofs.Webhook
import BuildClient.Proofs.Url.Parts
import BuildClient.Proofs.Startup
import BuildClient.Proofs.Log.Line
