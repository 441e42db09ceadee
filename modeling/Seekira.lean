import Seekira.Library.Machine
import Seekira.Library.Proc
import Seekira.Library.Noninterference
import Seekira.Library.RootedTree
import Seekira.Library.Thinning
import Seekira.Library.RunningMaxima
import Seekira.Library.Recorded
import Seekira.Library.PastTime
import Seekira.Library.Loop
import Seekira.Library.CheckedInt
import Seekira.Model.Media
import Seekira.Model.PacketQueue
import Seekira.Model.DemuxerQueue
import Seekira.Model.DemuxerPeriod
import Seekira.Model.DecoderVideo
import Seekira.Model.StreamReader
import Seekira.Model.DemuxedStream
import Seekira.Model.SeekRecord
import Seekira.Model.EventHandlerList
import Seekira.Model.Reader
import Seekira.Model.ReaderWorker
import Seekira.Model.ReaderRecord
import Seekira.Model.FrameOrigins
import Seekira.Model.MediaFile
import Seekira.Model.StreamSession
import Seekira.Model.StreamCreation
import Seekira.Model.Parser
import Seekira.Model.ParserRecord
import Seekira.Model.ParserSeek
import Seekira.Model.ParserOpening
import Seekira.Model.ReadFrameFixed
import Seekira.Model.DetectFps
import Seekira.Model.ChapterSearch
import Seekira.Model.ChapterTable
import Seekira.Model.ThreadPoolWorker
import Seekira.Model.WorkerWaits
import Seekira.Model.ExceptionReset
import Seekira.Model.BranchTree
import Seekira.Model.AsyncPipeline
import Seekira.Model.PipelineCallers
import Seekira.Model.ObserverDelivery
import Seekira.Model.PipelineGraph
import Seekira.Model.CoreGraph
import Seekira.Model.SyncPipeline
import Seekira.Model.ForkedBranches
import Seekira.Model.VideoFrame
import Seekira.Model.PersonDetector
import Seekira.Analysis.DeliveryOrder
import Seekira.Analysis.DeliveryEnds
import Seekira.Analysis.AsyncEffects
import Seekira.Analysis.AsyncSlots
import Seekira.Analysis.AsyncExceptions
import Seekira.Analysis.AsyncStop
import Seekira.Analysis.AsyncDelivery
import Seekira.Analysis.AsyncHistory
import Seekira.Analysis.AsyncPublication
import Seekira.Analysis.StartOnDemand
import Seekira.Analysis.WorkerStop
import Seekira.Analysis.ExceptionReset
import Seekira.Analysis.RegisteredHandlers
import Seekira.Analysis.ReaderSteps
import Seekira.Analysis.ReaderEvents
import Seekira.Analysis.ReaderWakeUps
import Seekira.Analysis.ReaderExits
import Seekira.Analysis.LastValidFrame
import Seekira.Analysis.DecoderRounds
import Seekira.Analysis.StreamPasses
import Seekira.Analysis.ReaderCalls
import Seekira.Analysis.ReaderEof
import Seekira.Analysis.NullPacket
import Seekira.Analysis.DrainCompleteness
import Seekira.Analysis.ParserCorrections
import Seekira.Analysis.TimestampSentinel
import Seekira.Analysis.PacketFrame
import Seekira.Analysis.SeekOutcome
import Seekira.Analysis.SeekInvariant
import Seekira.Analysis.RememberedStreams
import Seekira.Analysis.StreamIndices
import Seekira.Analysis.RestoredTimes
import Seekira.Analysis.TimestampWrap
import Seekira.Analysis.ReadFrameFixed
import Seekira.Analysis.DetectedFps
import Seekira.Analysis.ChapterSampling
import Seekira.Analysis.ChapterLookup
import Seekira.Analysis.DemuxerDelivery
import Seekira.Analysis.DemuxerHistory
import Seekira.Analysis.DemuxerKept
import Seekira.Analysis.DemuxerSettings
import Seekira.Analysis.DemuxerSeekResult
import Seekira.Analysis.DemuxerStarvation
import Seekira.Analysis.DemuxerReturns
import Seekira.Analysis.QueueFilling
import Seekira.Analysis.SeekFrame
import Seekira.Analysis.SeekRecorded
import Seekira.Analysis.SeekRounds
import Seekira.Analysis.SeekVerdict
import Seekira.Analysis.SeekRequests
import Seekira.Analysis.JointSeek
import Seekira.Analysis.FailedSeek
import Seekira.Analysis.StreamCreation
import Seekira.Analysis.FrameOrigins
import Seekira.Analysis.FrameOffsets
import Seekira.Analysis.DecodedFrames
import Seekira.Analysis.KeyFrames
import Seekira.Analysis.FrameTrack
import Seekira.Analysis.FramesOnce
import Seekira.Analysis.DemuxerSeek
import Seekira.Analysis.DecoderFeed
import Seekira.Analysis.DecoderClock
import Seekira.Analysis.ReturnedFrames
import Seekira.Analysis.StreamReading
import Seekira.Analysis.StreamSeek
import Seekira.Analysis.StreamFrame
import Seekira.Analysis.ReaderRuns
import Seekira.Analysis.ReaderMethods
import Seekira.Analysis.ReaderStream
import Seekira.Analysis.SetPosition
import Seekira.Analysis.SetPositionExits
import Seekira.Analysis.FrameDurations
import Seekira.Analysis.StepBackward
import Seekira.Analysis.PipelineBuilding
import Seekira.Analysis.GraphConsistency
import Seekira.Analysis.PipelineBranches
import Seekira.Analysis.PipelineTrees
import Seekira.Analysis.PipelineValidity
import Seekira.Analysis.PipelineBranchTree
import Seekira.Analysis.SyncOrder
import Seekira.Analysis.SyncCalls
import Seekira.Analysis.SyncData
import Seekira.Analysis.DeliveredFrames
import Seekira.Analysis.BoxRescaling
import Seekira.Analysis.ResizedSize
import Seekira.Analysis.AsyncData
import Seekira.Analysis.PipelineAgreement
import Seekira.Analysis.BranchIsolation
import Seekira.Analysis.SilentBranches
import Seekira.Analysis.RegisteredSources
import Seekira.Model.FakeCamera
import Seekira.Analysis.CameraSessions
import Seekira.Model.PlayerController
import Seekira.Analysis.PlayerFollowsReader
import Seekira.Model.FaceEngineUsers
import Seekira.Analysis.TrackedUsers
import Seekira.Model.ReaderDestruction
import Seekira.Analysis.WorkAfterDestructor
import Seekira.Analysis.QueuePosition
import Seekira.Model.TypeUtils
import Seekira.Model.PersonHolder
import Seekira.Analysis.PersonVote
import Seekira.Model.FaceMemory
import Seekira.Analysis.PersonOrder
import Seekira.Analysis.LoadedFaces
import Seekira.Model.FaceEngine
import Seekira.Analysis.MatchProbability
import Seekira.Analysis.GraphValidity
import Seekira.Analysis.CameraFrames
import Seekira.Library.GreedySelection
import Seekira.Analysis.BoxSuppression
import Seekira.Library.Loading
import Seekira.Model.Json
import Seekira.Model.BaseTypes
import Seekira.Model.CameraSettings
import Seekira.Analysis.SettingsRoundTrip
import Seekira.Analysis.SettingsReload
import Seekira.Library.ScopedLocks
import Seekira.Model.StreamLinks
import Seekira.Analysis.StreamUnlinking
import Seekira.Analysis.UnlinkingDepth
import Seekira.Analysis.StreamLinkRuns
import Seekira.Analysis.StreamsById
import Seekira.Library.Fairness
import Seekira.Analysis.AsyncProgress
import Seekira.Analysis.AsyncDrain
import Seekira.Library.Simulation
import Seekira.Model.FramePlayer
import Seekira.Analysis.PlayerRefinement
import Seekira.Analysis.PlayerRuns
import Seekira.Library.BlockHeap
import Seekira.Model.FrameHeap
import Seekira.Model.FrameValues
import Seekira.Analysis.FrameOwnership
import Seekira.Analysis.FramesAreValues
import Seekira.Model.VobChapters
import Seekira.Analysis.ChapterDetection
import Seekira.Analysis.ChapterLayout
import Seekira.Analysis.ChapterTimes
import Seekira.Model.ParserPackets
import Seekira.Analysis.MovieParser
import Seekira.Analysis.MoviePlayback
import Seekira.Library.Outcome
import Seekira.Model.TaskSettings
import Seekira.Model.TaskCreation
import Seekira.Analysis.TypedConfigs
import Seekira.Analysis.LoadedPipelines
import Seekira.Analysis.LoadedTasks
