import CoolDown.Library.BitBlocks
import CoolDown.Library.Footprint
import CoolDown.Library.IntCodec
import CoolDown.Library.Mailbox
import CoolDown.Library.Meter
import CoolDown.Library.Run
import CoolDown.Library.SharedObject
import CoolDown.Library.Slice
import CoolDown.Library.SortedMap
import CoolDown.Library.Source
import CoolDown.Library.SqlText
import CoolDown.Library.Table
import CoolDown.Library.Tiling
import CoolDown.Library.Wire
import CoolDown.Library.WorkPool
import CoolDown.Public.ErrorCode
import CoolDown.Public.NetPack
import CoolDown.Public.NetPackHeader
import CoolDown.Public.ReceivedCode
import CoolDown.Public.TrackerProto
import CoolDown.Public.TrackerRequests
import CoolDown.Client.AddFile
import CoolDown.Client.Advertisement
import CoolDown.Client.Believed
import CoolDown.Client.BitmapTransport
import CoolDown.Client.ByteTotals
import CoolDown.Client.ChunkSelector
import CoolDown.Client.ChunkTransfer
import CoolDown.Client.ClientConnectionHandler
import CoolDown.Client.Collector
import CoolDown.Client.ConnectionLimit
import CoolDown.Client.CoolClient
import CoolDown.Client.Digests
import CoolDown.Client.DownloadTask
import CoolDown.Client.FileCopy
import CoolDown.Client.HistoryEntries
import CoolDown.Client.HistoryWire
import CoolDown.Client.Job
import CoolDown.Client.JobBacked
import CoolDown.Client.JobComplete
import CoolDown.Client.JobConstruction
import CoolDown.Client.JobEnd
import CoolDown.Client.JobExit
import CoolDown.Client.JobFiles
import CoolDown.Client.JobHandles
import CoolDown.Client.JobHistory
import CoolDown.Client.JobInfo
import CoolDown.Client.JobPlaces
import CoolDown.Client.JobThreads
import CoolDown.Client.LocalSockManager
import CoolDown.Client.Main
import CoolDown.Client.MakeTorrent
import CoolDown.Client.OwnerSearch
import CoolDown.Client.PeerConnection
import CoolDown.Client.PeerPool
import CoolDown.Client.PercentageScale
import CoolDown.Client.PeriodicReport
import CoolDown.Client.PublishedPaths
import CoolDown.Client.RateLimit
import CoolDown.Client.ReloadHistory
import CoolDown.Client.ReportHandOff
import CoolDown.Client.SaveHistory
import CoolDown.Client.SelectionOrder
import CoolDown.Client.SlotBorrowers
import CoolDown.Client.SockLending
import CoolDown.Client.StopWait
import CoolDown.Client.TaskEffect
import CoolDown.Client.TaskStart
import CoolDown.Client.Torrent
import CoolDown.Client.TorrentRegistry
import CoolDown.Client.TrackerCalls
import CoolDown.Client.TrackerLink
import CoolDown.Client.Traffic
import CoolDown.Client.UploadRequests
import CoolDown.Client.UploadTask
import CoolDown.Client.Verification
import CoolDown.Client.WriteBounds
import CoolDown.Tracker.Isolation
import CoolDown.Tracker.OnlineStatus
import CoolDown.Tracker.OwnershipTable
import CoolDown.Tracker.PeerSearch
import CoolDown.Tracker.Replies
import CoolDown.Tracker.SqlInjection
import CoolDown.Tracker.Tracker
import CoolDown.Tracker.TrackerConnectionHandler
import CoolDown.Tracker.TrackerDBManager
import CoolDown.System.Jobs
import CoolDown.System.Progress
import CoolDown.System.Publication
import CoolDown.System.Registry
import CoolDown.System.Resume
import CoolDown.System.Sessions
import CoolDown.System.Sharing
import CoolDown.System.Swarm
import CoolDown.System.TrackerService
