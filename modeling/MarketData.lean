import MarketData.Comparator.Report
import MarketData.Comparator.Drift
import MarketData.Comparator.Context
import MarketData.Comparator.Extension
import MarketData.Engine.Atomicity
import MarketData.Engine.Capture
import MarketData.Engine.Dataflow
import MarketData.Engine.FailedLoad
import MarketData.Exporter.Extension
import MarketData.Exporter.Response
import MarketData.Exporter.Segments
import MarketData.Exporter.Series
import MarketData.Exporter.Shutdown
import MarketData.Exporter.Structure
import MarketData.Ingress.Integers
import MarketData.Ingress.Target
import MarketData.Pipeline.Freshness
import MarketData.Pipeline.Monitor
import MarketData.Pipeline.Readability
import MarketData.Pipeline.TornReads
import MarketData.Readers.Agreement
import MarketData.Readers.Escapes
import MarketData.Readers.Integers
import MarketData.Readers.Malformed
import MarketData.Engine.Inference
import MarketData.Engine.Rounded
import MarketData.Pipeline.Regression
import MarketData.Ingress.Verification
