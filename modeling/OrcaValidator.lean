import OrcaValidator.Library.Text
import OrcaValidator.Library.Path
import OrcaValidator.Library.Dict
import OrcaValidator.Library.Effect
import OrcaValidator.Library.Json
import OrcaValidator.Library.Interpreter
import OrcaValidator.Library.Regex
import OrcaValidator.Library.Occurrence
import OrcaValidator.Library.Reflow
import OrcaValidator.Library.Statechart
import OrcaValidator.Library.Substitution
import OrcaValidator.Library.Enclosed
import OrcaValidator.Library.NearestSmaller
import OrcaValidator.Library.Markup
import OrcaValidator.Library.Postgres
import OrcaValidator.Library.Custody
import OrcaValidator.Library.Conversation
import OrcaValidator.Models
import OrcaValidator.Orca.ContractActions
import OrcaValidator.Orca.ContractValidation
import OrcaValidator.Orca.ContractRuns
import OrcaValidator.Orca.Bridge
import OrcaValidator.Orca.Resume
import OrcaValidator.Ocr.Extract
import OrcaValidator.Ocr.Render
import OrcaValidator.Ocr.Reader
import OrcaValidator.Ocr.ParserClient
import OrcaValidator.Ocr.Pages
import OrcaValidator.Ocr.Wrapping
import OrcaValidator.Llm.Analyze
import OrcaValidator.Llm.Classify
import OrcaValidator.Llm.Budget
import OrcaValidator.Llm.Chunks
import OrcaValidator.Llm.Boundaries
import OrcaValidator.Llm.Revise
import OrcaValidator.Llm.ExtractMachine
import OrcaValidator.Llm.Conversation
import OrcaValidator.Pipeline.Validate
import OrcaValidator.Pipeline.Outcome
import OrcaValidator.Pipeline.Verdict
import OrcaValidator.Pipeline.ContractKind
import OrcaValidator.Pipeline.Noninterference
import OrcaValidator.Pipeline.Storable
import OrcaValidator.Pipeline.ModelFailure
import OrcaValidator.DocumentFsm.Parse
import OrcaValidator.DocumentFsm.Headings
import OrcaValidator.DocumentFsm.Normalize
import OrcaValidator.DocumentFsm.Format
import OrcaValidator.DocumentFsm.VerificationCopy
import OrcaValidator.DocumentFsm.CopyMachine
import OrcaValidator.DocumentFsm.Mermaid
import OrcaValidator.DocumentFsm.Boxes
import OrcaValidator.Export.Redline
import OrcaValidator.Export.Tokens
import OrcaValidator.Export.Download
import OrcaValidator.Export.Seams
import OrcaValidator.Export.Docx
import OrcaValidator.Web.RenderRedline
import OrcaValidator.Web.Agreement
import OrcaValidator.Web.Validate
import OrcaValidator.Api.Documents
import OrcaValidator.Library.Transition
import OrcaValidator.Library.Progress
import OrcaValidator.Pipeline.Call
import OrcaValidator.Queue
import OrcaValidator.Pipeline.Claiming
import OrcaValidator.Api.Polling
import OrcaValidator.Pipeline.Concurrency
import OrcaValidator.Pipeline.Restart
import OrcaValidator.Pipeline.Worker
import OrcaValidator.Orca.Verification
import OrcaValidator.Pipeline.Deployment
import OrcaValidator.Pipeline.Lifecycle
import OrcaValidator.Pipeline.Ownership
import OrcaValidator.Pipeline.Progress
import OrcaValidator.Api.Requests
import OrcaValidator.Api.Responses
import OrcaValidator.Web.Site
import OrcaValidator.Api.Visits
import OrcaValidator.Api.Machines
import OrcaValidator.Library.Files
import OrcaValidator.Library.Scratch
import OrcaValidator.Storage.Blobs
import OrcaValidator.Pipeline.Decision
import OrcaValidator.Export.RoundTrip
import OrcaValidator.DocumentFsm.Verify
import OrcaValidator.Pipeline.Asking
import OrcaValidator.Pipeline.DocumentMachine
