import Stel.AgentContext.Versions
import Stel.Backends.HtmlOffsets
import Stel.Batch.Alignment
import Stel.Batch.Resume
import Stel.Budget.Refusals
import Stel.Budget.Workers
import Stel.Build
import Stel.Checks.MissingColumns
import Stel.Checks.StoredFailures
import Stel.ConceptCloud
import Stel.Execution.ChunkSizes
import Stel.Execution.EmbedRuns
import Stel.Execution.EvalHistory
import Stel.Execution.EvalTotals
import Stel.Execution.Interrupted
import Stel.Mcp.Disclosure
import Stel.Mcp.RowOrder
import Stel.Mcp.Truncation
import Stel.Ml.PublicationRuns
import Stel.Ml.RoundTrip
import Stel.Prompts.Immutability
import Stel.Retrieval.Completion
import Stel.Retrieval.Fencing
import Stel.Search.Compilation
import Stel.Search.Fusion
import Stel.Search.RetrievalEval
import Stel.Search.Retuned
import Stel.Sources.Local
import Stel.SqlModels
import Stel.Text.Assertions
import Stel.Text.Keyphrases
import Stel.Text.Redaction
import Stel.Text.Resolution
import Stel.Text.Tone
import Stel.Warehouse.FullChunks
import Stel.Warehouse.Migration
import Stel.Warehouse.ScopeReplacement
import Stel.Warehouse.SqlAtomic
import Stel.Warehouse.StaleDiscovery
