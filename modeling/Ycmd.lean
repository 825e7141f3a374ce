import Ycmd.Lsp.RoundTrip
import Ycmd.Lsp.MessageTypes
import Ycmd.Clangd.PumpSurvival
import Ycmd.Clangd.SyncAlone
import Ycmd.Clangd.Cursor
import Ycmd.Clangd.Answers
import Ycmd.Access
import Ycmd.Session
import Ycmd.FilterAndSort
import Ycmd.FilteredCandidates
import Ycmd.CursorReads
import Ycmd.CursorIdentifiers
import Ycmd.CompletionsAnswer
import Ycmd.Core.AnswerHistory
import Ycmd.Core.Graphemes
import Ycmd.Core.Matching
import Ycmd.Core.Decoding
import Ycmd.Core.FailedUpdates
import Ycmd.Core.CommonSubsequences
import Ycmd.Core.Pointers
import Ycmd.Core.TagLines
import Ycmd.Core.TagFiles
import Ycmd.Core.Narrowing
import Ycmd.Refiltering
import Ycmd.BufferIdentifiers
import Ycmd.LazyRequest
import Ycmd.SentCompletions
import Ycmd.OptionRuns
import Ycmd.Typing
import Ycmd.Clangd.Wire
import Ycmd.Clangd.Returns
import Ycmd.Delivery
import Ycmd.ReadableBodies
import Ycmd.DecodingErrors
import Ycmd.Process
