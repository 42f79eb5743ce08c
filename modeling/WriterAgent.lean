import WriterAgent.Calc.ExcelPyConvert.AstOffsets
import WriterAgent.Calc.ExcelPyConvert.ImportBinding
import WriterAgent.Calc.ExcelPyConvert.ScriptBankAgreement
import WriterAgent.Calc.FormatRects
import WriterAgent.Calc.Python.ArgumentSafety
import WriterAgent.Calc.Python.Convergence
import WriterAgent.Calc.Python.LocatorUniqueness
import WriterAgent.Calc.Python.SanitizeAgain
import WriterAgent.Calc.Python.SanitizeMeaning
import WriterAgent.Calc.Python.SpillIsolation
import WriterAgent.Calc.Python.SpillSafety
import WriterAgent.Calc.SpreadsheetImport.ConstantsKept
import WriterAgent.Calc.SpreadsheetImport.DependencyOrder
import WriterAgent.Calc.SpreadsheetImport.OperandGrouping
import WriterAgent.Calc.SpreadsheetImport.VectorGroups
import WriterAgent.Chatbot.HistoryLog
import WriterAgent.Chatbot.ToolLoopRuns
import WriterAgent.Doc.TrackedText
import WriterAgent.Embeddings.EditsKept
import WriterAgent.Embeddings.ParentHits
import WriterAgent.Embeddings.QuietPeriods
import WriterAgent.Embeddings.SentenceSpans
import WriterAgent.Framework.BatchingClock
import WriterAgent.Framework.Client.DeltaFragments
import WriterAgent.Framework.Client.RetryIsolation
import WriterAgent.Framework.Client.StreamAgreement
import WriterAgent.Framework.DrainDisplay
import WriterAgent.Framework.EntriesKept
import WriterAgent.Framework.SendCancellation
import WriterAgent.Framework.SendIsolation
import WriterAgent.Framework.StripThinkTags
import WriterAgent.Framework.WakeUp
import WriterAgent.Mcp.GateSafety
import WriterAgent.Mcp.RetryBudget
import WriterAgent.Mcp.TunnelSafety
import WriterAgent.Notebook.ListBlocks
import WriterAgent.Notebook.OutputReplaced
import WriterAgent.Scripting.CellResult
import WriterAgent.Scripting.ColumnNames
import WriterAgent.Scripting.EgressAgreement
import WriterAgent.Scripting.FlattenAgreement
import WriterAgent.Scripting.IpcFrames
import WriterAgent.Scripting.ScriptStores
import WriterAgent.Scripting.SessionCache
import WriterAgent.Scripting.SharedKernel
import WriterAgent.Scripting.WorkerPairing
import WriterAgent.Scripting.WorkerReplay
import WriterAgent.Writer.Html.StyleRoundTrip
import WriterAgent.Writer.Locale.CheckerIsolation
import WriterAgent.Writer.Locale.NewestWins
import WriterAgent.Writer.Locale.ProofreadSpans
import WriterAgent.Writer.Locale.SentenceSplit
import WriterAgent.Writer.Math.SegmentLossless
import WriterAgent.Writer.PreservingReplace
import WriterAgent.Writer.Review.AtomicReplace
import WriterAgent.Writer.Review.ResolveAll
import WriterAgent.Writer.Review.ReviewTruth
import WriterAgent.Writer.Review.SelfResolution
import WriterAgent.Writer.Review.StreamedSessions
import WriterAgent.Writer.Search.ChainCoverage
