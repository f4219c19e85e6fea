import LogMq.LibLittleEndian
import LogMq.LibSortedMap
import LogMq.LibRoundRobin
import LogMq.LibSparseIndex
import LogMq.Status
import LogMq.StorageCrc32
import LogMq.StorageRecord
import LogMq.StorageRecordBatch
import LogMq.StorageBatchCodec
import LogMq.StorageCanonical
import LogMq.StorageOffsetIndex
import LogMq.StorageOverflow
import LogMq.StorageSegment
import LogMq.StorageWriteAll
import LogMq.StorageCommitLog
import LogMq.StorageLayout
import LogMq.StorageRecovery
import LogMq.StorageChain
import LogMq.StorageState
import LogMq.StorageAppend
import LogMq.StorageReopen
import LogMq.StorageRuns
import LogMq.StorageInvariant
import LogMq.StorageCut
import LogMq.StorageContents
import LogMq.StorageFailedWrites
import LogMq.LibAlteration
import LogMq.StorageBatchFlip
import LogMq.StorageRecovered
import LogMq.StorageStrict
import LogMq.StorageSearch
import LogMq.StorageParts
import LogMq.StorageAttempts
import LogMq.StorageFailedAppends
import LogMq.StorageBudget
import LogMq.StorageBitFlip
import LogMq.StorageBurst
import LogMq.StorageDamage
import LogMq.LibBalancedSplit
import LogMq.LibRuns
import LogMq.BrokerNames
import LogMq.GroupCoordinator
import LogMq.GroupAssignment
import LogMq.GroupSteps
import LogMq.GroupInvariant
import LogMq.GroupGenerations
import LogMq.GroupFencing
import LogMq.GroupFailures
import LogMq.GroupMembership
import LogMq.LibBigEndian
import LogMq.LibByteCodec
import LogMq.LibLoggedReader
import LogMq.LibChunkedParser
import LogMq.ProtocolTypes
import LogMq.ProtocolWire
import LogMq.ProtocolFrame
import LogMq.ProtocolRecords
import LogMq.ProtocolRequests
import LogMq.ProtocolRequestLayout
import LogMq.ProtocolFrameDecoder
import LogMq.ProtocolResponses
import LogMq.ProtocolResponseLayout
import LogMq.ProtocolResponseFrames
import LogMq.ProtocolReserve
import LogMq.ProtocolErrorResponse
import LogMq.ProtocolCanonical
import LogMq.LibMinQueue
import LogMq.LibText
import LogMq.BrokerRetryRecord
import LogMq.BrokerRetryLog
import LogMq.BrokerScheduler
import LogMq.BrokerSchedulerRuns
import LogMq.BrokerTopics
import LogMq.BrokerHoldings
import LogMq.BrokerLoad
import LogMq.BrokerOffsets
import LogMq.BrokerOffsetFiles
import LogMq.BrokerOffsetRuns
import LogMq.StorageNames
import LogMq.BrokerTopicFiles
import LogMq.BrokerTopicRuns
import LogMq.BrokerTopicText
import LogMq.BrokerSelection
import LogMq.BrokerService
import LogMq.BrokerSteps
import LogMq.BrokerInvariant
import LogMq.BrokerRequests
import LogMq.BrokerRestart
import LogMq.BrokerRetryRuns
import LogMq.BrokerWatermark
import LogMq.BrokerDelivery
import LogMq.BrokerCommits
import LogMq.BrokerCrash
import LogMq.BrokerGroups
import LogMq.NetConnection
import LogMq.NetBuffer
import LogMq.NetServer
import LogMq.NetOrder
import LogMq.ClientConnection
import LogMq.ClientRoundTrip
import LogMq.ClientProducer
import LogMq.LibProgram
import LogMq.LibPool
import LogMq.LibHistory
import LogMq.ClientConsumer
import LogMq.ClientWorld
import LogMq.ClientAnswers
import LogMq.ClientFetching
import LogMq.ClientInvariant
import LogMq.ClientSchedule
import LogMq.ClientDelivery
import LogMq.ClientCommits
import LogMq.ClientMembership
import LogMq.ClientOwnership
import LogMq.ClientOwners
import LogMq.LibSteps
import LogMq.NetWorkerPool
import LogMq.NetEventLoop
import LogMq.NetShutdown
import LogMq.NetPoller
import LogMq.NetWatching
import LogMq.NetDescriptors
import LogMq.StorageFlushed
import LogMq.BrokerMoves
import LogMq.BrokerDurability
import LogMq.NetSessions
import LogMq.NetDelivery
import LogMq.NetHistory
import LogMq.BrokerWrites
import LogMq.BrokerLineage
import LogMq.LibDetector
import LogMq.GroupDetector
import LogMq.NetCommits
import LogMq.BrokerRetryThread
import LogMq.GroupScanner
import LogMq.BrokerFlusher
import LogMq.BrokerThreads
