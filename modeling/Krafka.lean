import Krafka.Auth.Exchange
import Krafka.Auth.MskIam
import Krafka.Auth.TokenRefresh
import Krafka.Auth.TokenRequest
import Krafka.Barrier
import Krafka.Consumer.CancelSafety
import Krafka.Consumer.CommitIdentity
import Krafka.Consumer.CompactedScan
import Krafka.Consumer.Convergence
import Krafka.Consumer.Defaults
import Krafka.Consumer.Evenness
import Krafka.Consumer.Handover
import Krafka.Consumer.ReadCommitted
import Krafka.Consumer.Rounds
import Krafka.Consumer.Stickiness
import Krafka.Consumer.Superseded
import Krafka.Consumer.Validation
import Krafka.Consumer.WalkProgress
import Krafka.Error
import Krafka.Http.Bodies
import Krafka.Library.Calendar
import Krafka.Library.Encodings
import Krafka.Metadata.Answers
import Krafka.Metadata.Coverage
import Krafka.Metadata.Indexes
import Krafka.Metadata.LeaderEpochs
import Krafka.Network.AwsTimestamps
import Krafka.Network.Dials
import Krafka.Network.HappyEyeballs
import Krafka.Producer.Attempts
import Krafka.Producer.Budget
import Krafka.Producer.Deadlines
import Krafka.Producer.Flush
import Krafka.Producer.Obligations
import Krafka.Producer.PartitionTable
import Krafka.Producer.Partitioner
import Krafka.Producer.Sequences
import Krafka.Producer.Sizes
import Krafka.Producer.Stale
import Krafka.Producer.Waiters
import Krafka.Protocol.Codec
import Krafka.Protocol.ConsumerProtocol
import Krafka.Protocol.RoundTrip
import Krafka.Protocol.Snappy
import Krafka.Protocol.ValueCodecs
import Krafka.ShareConsumer.AckRetries
import Krafka.ShareConsumer.Filling
import Krafka.Telemetry.Reporter
