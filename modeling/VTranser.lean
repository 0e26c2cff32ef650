import VTranser.Lib.Regex
import VTranser.Lib.EndPatch
import VTranser.Lib.Utf16
import VTranser.Lib.Run
import VTranser.Lib.Words
import VTranser.Lib.Tasks
import VTranser.Lib.Trigger
import VTranser.Lib.FairLock
import VTranser.Lib.Window
import VTranser.Text
import VTranser.Sentences
import VTranser.Proofs.Sentences
import VTranser.Server.MicroDelta
import VTranser.Proofs.MicroDelta
import VTranser.Tail
import VTranser.Server.Patch
import VTranser.Overlay.English
import VTranser.Worker.Relay
import VTranser.Transcript
import VTranser.Proofs.Transcript
import VTranser.Proofs.TranscriptRuns
import VTranser.Translator.Text
import VTranser.Proofs.NormSpaces
import VTranser.Proofs.SplitComplete
import VTranser.Translator.Strict
import VTranser.Proofs.Strict
import VTranser.Translator.Handler
import VTranser.Proofs.Handler
import VTranser.Translator.Connection
import VTranser.Proofs.Connection
import VTranser.Translator.Shutdown
import VTranser.Proofs.Shutdown
import VTranser.Proofs.Baseline
import VTranser.Proofs.Barrier
import VTranser.Overlay.Vietnamese
import VTranser.Translation
import VTranser.Proofs.Translation
import VTranser.Lib.ObjMap
import VTranser.Lib.Retry
import VTranser.Panel.ChatStore
import VTranser.Panel.Chat
import VTranser.Proofs.Chat
import VTranser.Proofs.ChatWindow
import VTranser.Auth
import VTranser.Proofs.Auth
import VTranser.Proofs.Delivery
import VTranser.Worker.Persist
import VTranser.Proofs.Persist
import VTranser.Offscreen
import VTranser.Proofs.Offscreen
import VTranser.Offscreen.Pcm
import VTranser.Proofs.Sockets
import VTranser.Proofs.Pcm
import VTranser.Offscreen.Recording
import VTranser.Proofs.Recording
import VTranser.Proofs.StopWins
import VTranser.Proofs.Overlap
import VTranser.Proofs.Teardown
import VTranser.Worker.Service
import VTranser.Proofs.RelayOrder
import VTranser.Proofs.Service
import VTranser.Proofs.StartComplete
import VTranser.Proofs.Cleanup
import VTranser.Proofs.Moves
import VTranser.Proofs.TranslatorSocket
import VTranser.Proofs.Sessions
import VTranser.Lib.Loop
import VTranser.Translator.Delay
import VTranser.Translator.Segmenter
import VTranser.Proofs.Tidy
import VTranser.Proofs.Cuts
import VTranser.Proofs.Chunks
import VTranser.Proofs.Segmenter
import VTranser.Proofs.SegmenterRuns
import VTranser.Proofs.Reanchor
import VTranser.Proofs.StrictStable
import VTranser.Proofs.Stabilizer
import VTranser.Server.TxtWriter
import VTranser.Proofs.SentenceGrowth
import VTranser.Proofs.TxtWriter
import VTranser.Server.Slot
import VTranser.Proofs.Slot
import VTranser.Lib.Senders
import VTranser.Server.Updates
import VTranser.Proofs.Updates
import VTranser.Lib.Linked
import VTranser.Worker.ChatRepo
import VTranser.Panel.ChatDb
import VTranser.Proofs.ChatDb
import VTranser.Lib.Fifo
import VTranser.Server.AudioBuffer
import VTranser.Proofs.AudioBuffer
import VTranser.Server.PyJson
import VTranser.Server.Decode
import VTranser.Server.Receive
import VTranser.Proofs.AudioQueue
import VTranser.Proofs.Receive
import VTranser.Proofs.FeedWorker
import VTranser.Proofs.LatestFile
import VTranser.Overlay.Layout
import VTranser.Proofs.Layout
import VTranser.Proofs.SplitLossless
import VTranser.Proofs.Glyphs
import VTranser.Proofs.Lag
import VTranser.Translator.Mt
import VTranser.Proofs.CommitStream
import VTranser.Translator.Draft
import VTranser.Proofs.DraftGate
import VTranser.Worklet
import VTranser.Proofs.Worklet
import VTranser.Proofs.AudioPath
import VTranser.Panel.RagContext
import VTranser.Proofs.RagContext
import VTranser.Translator.Postprocess
import VTranser.Proofs.Postprocess
import VTranser.Lib.StableSort
import VTranser.Worker.EmailCache
import VTranser.Proofs.EmailCache
import VTranser.Lib.Base64
import VTranser.Lib.Json
import VTranser.Lib.JsonWrite
import VTranser.Lib.Cut
import VTranser.Panel.Sse
import VTranser.Proofs.Sse
import VTranser.Proofs.Orphans
import VTranser.Password
import VTranser.Proofs.Password
import VTranser.Accounts
import VTranser.Proofs.Accounts
import VTranser.InPage
import VTranser.Proofs.InPage
import VTranser.Worker.HistoryRepo
import VTranser.Proofs.HistoryRepo
import VTranser.Server.AuthGate
import VTranser.Proofs.AuthGate
import VTranser.Translator.Wire
import VTranser.Proofs.Wire
