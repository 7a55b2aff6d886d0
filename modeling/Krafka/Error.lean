import Mathlib.Algebra.Order.Ring.Int

/-! Kafka error codes and the client's error type, with the predicates the producer
branches on. Texts are the ones the `Display` and `Debug` implementations print. -/

namespace Krafka

inductive ErrorCode where
  | none | unknownServerError | offsetOutOfRange | corruptMessage | unknownTopicOrPartition
  | invalidMessageSize | leaderNotAvailable | notLeaderForPartition | requestTimedOut
  | brokerNotAvailable | replicaNotAvailable | messageTooLarge | staleControllerEpoch
  | offsetMetadataTooLarge | networkException | coordinatorLoadInProgress
  | coordinatorNotAvailable | notCoordinator | invalidTopic | recordListTooLarge
  | notEnoughReplicas | notEnoughReplicasAfterAppend | invalidRequiredAcks | illegalGeneration
  | inconsistentGroupProtocol | invalidGroupId | unknownMemberId | invalidSessionTimeout
  | rebalanceInProgress | invalidCommitOffsetSize | topicAuthorizationFailed
  | groupAuthorizationFailed | clusterAuthorizationFailed | invalidTimestamp
  | unsupportedSaslMechanism | illegalSaslState | unsupportedVersion | topicAlreadyExists
  | invalidPartitions | invalidReplicationFactor | invalidReplicaAssignment | invalidConfig
  | notController | invalidRequest | unsupportedForMessageFormat | policyViolation
  | outOfOrderSequenceNumber | duplicateSequenceNumber | invalidProducerEpoch | invalidTxnState
  | invalidProducerIdMapping | invalidTransactionTimeout | concurrentTransactions
  | transactionCoordinatorFenced | transactionalIdAuthorizationFailed | securityDisabled
  | operationNotAttempted | kafkaStorageException | logDirNotFound | saslAuthenticationFailed
  | unknownProducerId | reassignmentInProgress | delegationTokenAuthDisabled
  | delegationTokenNotFound | delegationTokenOwnerMismatch | delegationTokenRequestNotAllowed
  | delegationTokenAuthorizationFailed | delegationTokenExpired | invalidPrincipalType
  | nonEmptyGroup | groupIdNotFound | fetchSessionIdNotFound | invalidFetchSessionEpoch
  | listenerNotFound | topicDeletionDisabled | fencedLeaderEpoch | unknownLeaderEpoch
  | unsupportedCompressionType | staleBrokerEpoch | offsetNotAvailable | memberIdRequired
  | preferredLeaderNotAvailable | groupMaxSizeReached | fencedInstanceId
  | eligibleLeadersNotAvailable | electionNotNeeded | noReassignmentInProgress
  | groupSubscribedToTopic | invalidRecord | unstableOffsetCommit | throttlingQuotaExceeded
  | producerFenced | resourceNotFound | duplicateResource | unacceptableCredential
  | inconsistentVoterSet | invalidUpdateVersion | featureUpdateFailed
  | principalDeserializationFailure | snapshotNotFound | positionOutOfRange | unknownTopicId
  | duplicateBrokerRegistration | brokerIdNotRegistered | inconsistentTopicId
  | inconsistentClusterId | transactionalIdNotFound | fetchSessionTopicIdError | ineligibleReplica
  | newLeaderElected | offsetMovedToTieredStorage | fencedMemberEpoch | unreleasedInstanceId
  | unsupportedAssignor | staleMemberEpoch | mismatchedEndpointType | unsupportedEndpointType
  | unknownControllerId | unknownSubscriptionId | telemetryTooLarge | invalidRegistration
  | transactionAbortable | invalidRecordState | shareSessionNotFound | invalidShareSessionEpoch
  | fencedStateEpoch | invalidVoterKey | duplicateVoter | voterNotFound | invalidRegularExpression
  | rebootstrapRequired | streamsInvalidTopology | streamsInvalidTopologyEpoch
  | streamsTopologyFenced | shareSessionLimitReached
  | unknown (code : Int)
  deriving DecidableEq

namespace ErrorCode

/-- The names of the variants that stand for one code, in their order. -/
def names : List String :=
  ["None", "UnknownServerError", "OffsetOutOfRange", "CorruptMessage", "UnknownTopicOrPartition",
    "InvalidMessageSize", "LeaderNotAvailable", "NotLeaderForPartition", "RequestTimedOut",
    "BrokerNotAvailable", "ReplicaNotAvailable", "MessageTooLarge", "StaleControllerEpoch",
    "OffsetMetadataTooLarge", "NetworkException", "CoordinatorLoadInProgress",
    "CoordinatorNotAvailable", "NotCoordinator", "InvalidTopic", "RecordListTooLarge",
    "NotEnoughReplicas", "NotEnoughReplicasAfterAppend", "InvalidRequiredAcks", "IllegalGeneration",
    "InconsistentGroupProtocol", "InvalidGroupId", "UnknownMemberId", "InvalidSessionTimeout",
    "RebalanceInProgress", "InvalidCommitOffsetSize", "TopicAuthorizationFailed",
    "GroupAuthorizationFailed", "ClusterAuthorizationFailed", "InvalidTimestamp",
    "UnsupportedSaslMechanism", "IllegalSaslState", "UnsupportedVersion", "TopicAlreadyExists",
    "InvalidPartitions", "InvalidReplicationFactor", "InvalidReplicaAssignment", "InvalidConfig",
    "NotController", "InvalidRequest", "UnsupportedForMessageFormat", "PolicyViolation",
    "OutOfOrderSequenceNumber", "DuplicateSequenceNumber", "InvalidProducerEpoch",
    "InvalidTxnState", "InvalidProducerIdMapping", "InvalidTransactionTimeout",
    "ConcurrentTransactions", "TransactionCoordinatorFenced", "TransactionalIdAuthorizationFailed",
    "SecurityDisabled", "OperationNotAttempted", "KafkaStorageException", "LogDirNotFound",
    "SaslAuthenticationFailed", "UnknownProducerId", "ReassignmentInProgress",
    "DelegationTokenAuthDisabled", "DelegationTokenNotFound", "DelegationTokenOwnerMismatch",
    "DelegationTokenRequestNotAllowed", "DelegationTokenAuthorizationFailed",
    "DelegationTokenExpired", "InvalidPrincipalType", "NonEmptyGroup", "GroupIdNotFound",
    "FetchSessionIdNotFound", "InvalidFetchSessionEpoch", "ListenerNotFound",
    "TopicDeletionDisabled", "FencedLeaderEpoch", "UnknownLeaderEpoch",
    "UnsupportedCompressionType", "StaleBrokerEpoch", "OffsetNotAvailable", "MemberIdRequired",
    "PreferredLeaderNotAvailable", "GroupMaxSizeReached", "FencedInstanceId",
    "EligibleLeadersNotAvailable", "ElectionNotNeeded", "NoReassignmentInProgress",
    "GroupSubscribedToTopic", "InvalidRecord", "UnstableOffsetCommit", "ThrottlingQuotaExceeded",
    "ProducerFenced", "ResourceNotFound", "DuplicateResource", "UnacceptableCredential",
    "InconsistentVoterSet", "InvalidUpdateVersion", "FeatureUpdateFailed",
    "PrincipalDeserializationFailure", "SnapshotNotFound", "PositionOutOfRange", "UnknownTopicId",
    "DuplicateBrokerRegistration", "BrokerIdNotRegistered", "InconsistentTopicId",
    "InconsistentClusterId", "TransactionalIdNotFound", "FetchSessionTopicIdError",
    "IneligibleReplica", "NewLeaderElected", "OffsetMovedToTieredStorage", "FencedMemberEpoch",
    "UnreleasedInstanceId", "UnsupportedAssignor", "StaleMemberEpoch", "MismatchedEndpointType",
    "UnsupportedEndpointType", "UnknownControllerId", "UnknownSubscriptionId", "TelemetryTooLarge",
    "InvalidRegistration", "TransactionAbortable", "InvalidRecordState", "ShareSessionNotFound",
    "InvalidShareSessionEpoch", "FencedStateEpoch", "InvalidVoterKey", "DuplicateVoter",
    "VoterNotFound", "InvalidRegularExpression", "RebootstrapRequired", "StreamsInvalidTopology",
    "StreamsInvalidTopologyEpoch", "StreamsTopologyFenced", "ShareSessionLimitReached"]

def debug : ErrorCode → String
  | .unknown code => s!"Unknown({code})"
  | code => names.getD code.ctorIdx ""

def isRetriable : ErrorCode → Bool
  | .corruptMessage | .requestTimedOut | .coordinatorLoadInProgress | .notEnoughReplicas
  | .notEnoughReplicasAfterAppend | .notController | .concurrentTransactions
  | .fetchSessionIdNotFound | .invalidFetchSessionEpoch | .unknownLeaderEpoch
  | .offsetNotAvailable | .unstableOffsetCommit | .throttlingQuotaExceeded
  | .fetchSessionTopicIdError | .shareSessionNotFound | .invalidShareSessionEpoch
  | .shareSessionLimitReached | .coordinatorNotAvailable | .notCoordinator
  | .unknownTopicOrPartition | .leaderNotAvailable | .notLeaderForPartition | .replicaNotAvailable
  | .networkException | .kafkaStorageException | .listenerNotFound | .fencedLeaderEpoch
  | .preferredLeaderNotAvailable | .eligibleLeadersNotAvailable | .electionNotNeeded
  | .unknownTopicId | .inconsistentTopicId | .brokerNotAvailable | .rebalanceInProgress
  | .outOfOrderSequenceNumber | .operationNotAttempted | .unknownProducerId | .newLeaderElected
  | .fencedMemberEpoch | .staleMemberEpoch => true
  | _ => false

end ErrorCode

inductive ProtocolErrorKind where
  | truncatedFrame | crcMismatch | unknownApiVersion | invalidLength | frameTooLarge
  | invalidUtf8 | unsupportedMagic | invalidValue | malformed | other
  deriving DecidableEq

namespace ProtocolErrorKind

def debug : ProtocolErrorKind → String
  | .truncatedFrame => "TruncatedFrame" | .crcMismatch => "CrcMismatch"
  | .unknownApiVersion => "UnknownApiVersion" | .invalidLength => "InvalidLength"
  | .frameTooLarge => "FrameTooLarge" | .invalidUtf8 => "InvalidUtf8"
  | .unsupportedMagic => "UnsupportedMagic" | .invalidValue => "InvalidValue"
  | .malformed => "Malformed" | .other => "Other"

def isRetriable : ProtocolErrorKind → Bool
  | .truncatedFrame | .malformed => true
  | _ => false

end ProtocolErrorKind

/-- `network` carries the text of the I/O error it wraps; the error sources that
no predicate and no text reads are left out. -/
inductive KrafkaError where
  | network (message : String)
  | protocol (kind : ProtocolErrorKind) (message : String)
  | auth (message : String)
  | timeout (operation : String)
  | deliveryTimeout (possiblyWritten : Bool) (message : String)
  | broker (code : ErrorCode) (message : String)
  | config (message : String)
  | compression (message : String)
  | serialization (message : String)
  | recordDeserialization (topic : String) (partition : Int) (offset : Int) (part : String)
      (message : String)
  | closed (message : String)
  | wakeup
  | fenced (message : String)
  | transactionAbortable (message : String)
  | noOffset (partitions : List (String × Int))
  | unknownTopic (topic : String)
  | outOfOrderSequence (topic : String) (partition : Int) (message : String)
  | illegalState (message : String)
  deriving DecidableEq

namespace KrafkaError

def isRetriable : KrafkaError → Bool
  | .network _ | .timeout _ => true
  | .broker code _ => code.isRetriable
  | .protocol kind _ => kind.isRetriable
  | _ => false

def display : KrafkaError → String
  | .network message => s!"network error: {message}"
  | .protocol kind message => s!"protocol error ({kind.debug}): {message}"
  | .auth message => s!"authentication error: {message}"
  | .timeout operation => s!"operation timed out: {operation}"
  | .deliveryTimeout written message =>
    s!"delivery timed out (possibly written: {written}): {message}"
  | .broker code message => s!"broker error: {code.debug} - {message}"
  | .config message => s!"configuration error: {message}"
  | .compression message => s!"compression error: {message}"
  | .serialization message => s!"serialization error: {message}"
  | .recordDeserialization topic partition offset part message =>
    s!"failed to deserialize the {part} of {topic}-{partition} at offset {offset}: {message}"
  | .closed message => s!"closed: {message}"
  | .wakeup => "wakeup() was called"
  | .fenced message => s!"fenced: {message}"
  | .transactionAbortable message => s!"transaction must be aborted: {message}"
  | .noOffset partitions =>
    let names := partitions.map fun (topic, partition) => s!"{topic}-{partition}"
    let listed := String.intercalate ", " names
    s!"no offset and no reset policy for {listed}"
  | .unknownTopic topic => s!"unknown topic: {topic}"
  | .outOfOrderSequence topic partition message =>
    s!"out-of-order sequence on {topic}-{partition}: {message}"
  | .illegalState message => s!"illegal state: {message}"

end KrafkaError

abbrev Result : Type → Type := Except KrafkaError

theorem bind_eq_ok {ε α β : Type} {x : Except ε α} {f : α → Except ε β} {b : β}
    (done : (x >>= f) = .ok b) : ∃ a, x = .ok a ∧ f a = .ok b := by
  cases x with
  | error => cases done
  | ok a => exact ⟨a, rfl, done⟩

end Krafka
