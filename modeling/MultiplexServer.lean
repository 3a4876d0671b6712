import MultiplexServer.NetworkReaderFraming
import MultiplexServer.NetworkReaderExceptions
import MultiplexServer.NetworkReaderSegments
import MultiplexServer.NetworkReaderBound
import MultiplexServer.NetworkWriterDelivery
import MultiplexServer.NetworkWriterBound
import MultiplexServer.Configuration
import MultiplexServer.ConfigurationExtraction
import MultiplexServer.ConfigurationStart
import MultiplexServer.ConfigurationAcceptance
import MultiplexServer.ConfigurationAccessors
import MultiplexServer.Library.Machine
import MultiplexServer.Library.PrunedList
import MultiplexServer.Pipe
import MultiplexServer.ServerPipeline
import MultiplexServer.PipeRefinement
import MultiplexServer.DatamodelService
import MultiplexServer.NetworkConnections
import MultiplexServer.Services
import MultiplexServer.Server
import MultiplexServer.ServerLife
import MultiplexServer.ServerSites
import MultiplexServer.ServerSteps
import MultiplexServer.ServerInvariant
import MultiplexServer.ServerConnections
import MultiplexServer.ServerDispatch
import MultiplexServer.DatamodelIncrement
import MultiplexServer.ServerVerdicts
import MultiplexServer.ServerReplies
import MultiplexServer.Interleaving
import MultiplexServer.InterleavingSteps
import MultiplexServer.InterleavingLocks
import MultiplexServer.InterleavingService
import MultiplexServer.ConnectionAccounts
import MultiplexServer.InterleavingDescriptors
import MultiplexServer.ServerDescriptors
import MultiplexServer.ElementLock
import MultiplexServer.NetworkConnectionsLock
import MultiplexServer.ServerDescriptorSet
import MultiplexServer.ServerMaintenance
import MultiplexServer.ConfigurationFlattening
import MultiplexServer.Networks
import MultiplexServer.ThreadGroupCalls
import MultiplexServer.ThreadGroupMaintenance
import MultiplexServer.Library.QueueNetwork
import MultiplexServer.Library.Refinement
import MultiplexServer.ServerConversations
import MultiplexServer.ServerQueues
import MultiplexServer.Client
import MultiplexServer.Library.Progress
import MultiplexServer.ServerProgress
import MultiplexServer.Startup
import MultiplexServer.Logger
import MultiplexServer.Process
import MultiplexServer.ConfigurationServer
import MultiplexServer.ProcessShutdown
import MultiplexServer.Library.Balance
import MultiplexServer.ProcessWorkers
import MultiplexServer.Program
import MultiplexServer.ProgramRefused
