import Krafka.Error
import Krafka.Library.Maps

/-! The metrics of a client: the table of its counters, gauges and latencies, and the points that
a push makes of them. -/

namespace Krafka.Telemetry

inductive ClientType where
  | producer | consumer | admin
  deriving DecidableEq

def ClientType.name : ClientType → String
  | .producer => "producer"
  | .consumer => "consumer"
  | .admin => "admin"

inductive Section where
  | producer | consumer | connection
  deriving DecidableEq

inductive Kind where
  | counter | gauge
  deriving DecidableEq

structure Scalar where
  part : Section
  kind : Kind
  push : String
  value : Nat

structure Latency where
  (count sum max : Nat := 0)

def Latency.mean (l : Latency) : Option Nat :=
  if 0 < l.count then some (min (l.sum / l.count) (2 ^ 64 - 1)) else none

structure Timed where
  part : Section
  push : String
  value : Latency

structure ProducerMetrics where
  (recordsSent bytesSent batchesSent errors retries dataLossDetected compressedBytes
    uncompressedBytes bufferedRecords : Nat := 0)
  sendLatency : Latency := {}

structure ConsumerMetrics where
  (recordsReceived bytesReceived fetches polls emptyPolls commits errors rebalances seeks
    batchDecodeErrors lag lagMax assignedPartitions pausedPartitions bufferedRecords : Nat := 0)
  (pollLatency fetchLatency : Latency := {})

structure ConnectionMetrics where
  (connectionsCreated connectionsClosed connectionErrors activeConnections throttleDelays
    throttleDelayMs stalledConnections coordinationFallbacks oauthTokenFetches
    oauthTokenFetchFailures oauthTokenExpiryEpochMs : Nat := 0)
  (tlsHandshakeLatency oauthTokenFetchLatency : Latency := {})

def relevant (client : ClientType) : Section → Bool
  | .producer => client = .producer
  | .consumer => client = .consumer
  | .connection => true

structure Metrics where
  producer : ProducerMetrics := {}
  consumer : ConsumerMetrics := {}
  connections : ConnectionMetrics := {}

def Metrics.scalars (m : Metrics) : List Scalar :=
  let p := m.producer
  let c := m.consumer
  let n := m.connections
  [⟨.producer, .counter, "record.send.total", p.recordsSent⟩,
    ⟨.producer, .counter, "record.byte.total", p.bytesSent⟩,
    ⟨.producer, .counter, "batch.send.total", p.batchesSent⟩,
    ⟨.producer, .counter, "batch.error.total", p.errors⟩,
    ⟨.producer, .counter, "batch.retry.total", p.retries⟩,
    ⟨.producer, .counter, "data.loss.detected.total", p.dataLossDetected⟩,
    ⟨.producer, .counter, "batch.compressed.byte.total", p.compressedBytes⟩,
    ⟨.producer, .counter, "batch.uncompressed.byte.total", p.uncompressedBytes⟩,
    ⟨.producer, .gauge, "buffered.records", p.bufferedRecords⟩,
    ⟨.consumer, .counter, "fetch.manager.records.consumed.total", c.recordsReceived⟩,
    ⟨.consumer, .counter, "fetch.manager.bytes.consumed.total", c.bytesReceived⟩,
    ⟨.consumer, .counter, "fetch.manager.fetch.total", c.fetches⟩,
    ⟨.consumer, .counter, "poll.total", c.polls⟩,
    ⟨.consumer, .counter, "poll.empty.total", c.emptyPolls⟩,
    ⟨.consumer, .counter, "coordinator.commit.total", c.commits⟩,
    ⟨.consumer, .counter, "error.total", c.errors⟩,
    ⟨.consumer, .counter, "coordinator.rebalance.total", c.rebalances⟩,
    ⟨.consumer, .counter, "seek.total", c.seeks⟩,
    ⟨.consumer, .counter, "fetch.manager.batch.decode.error.total", c.batchDecodeErrors⟩,
    ⟨.consumer, .gauge, "fetch.manager.records.lag.total", c.lag⟩,
    ⟨.consumer, .gauge, "fetch.manager.records.lag.max", c.lagMax⟩,
    ⟨.consumer, .gauge, "coordinator.assigned.partitions", c.assignedPartitions⟩,
    ⟨.consumer, .gauge, "paused.partitions", c.pausedPartitions⟩,
    ⟨.consumer, .gauge, "buffered.records", c.bufferedRecords⟩,
    ⟨.connection, .counter, "connection.creation.total", n.connectionsCreated⟩,
    ⟨.connection, .counter, "connection.close.total", n.connectionsClosed⟩,
    ⟨.connection, .counter, "connection.error.total", n.connectionErrors⟩,
    ⟨.connection, .gauge, "connection.count", n.activeConnections⟩,
    ⟨.connection, .counter, "throttle.delay.total", n.throttleDelays⟩,
    ⟨.connection, .counter, "throttle.delay.ms.total", n.throttleDelayMs⟩,
    ⟨.connection, .counter, "connection.stalled.total", n.stalledConnections⟩,
    ⟨.connection, .counter, "coordination.fallback.total", n.coordinationFallbacks⟩,
    ⟨.connection, .counter, "oauth.token.fetch.total", n.oauthTokenFetches⟩,
    ⟨.connection, .counter, "oauth.token.fetch.failure.total", n.oauthTokenFetchFailures⟩,
    ⟨.connection, .gauge, "oauth.token.expiry.epoch.ms", n.oauthTokenExpiryEpochMs⟩]

def Metrics.latencies (m : Metrics) : List Timed :=
  [⟨.producer, "record.send.latency", m.producer.sendLatency⟩,
    ⟨.consumer, "poll.latency", m.consumer.pollLatency⟩,
    ⟨.consumer, "fetch.manager.fetch.latency", m.consumer.fetchLatency⟩,
    ⟨.connection, "tls.handshake.latency", m.connections.tlsHandshakeLatency⟩,
    ⟨.connection, "oauth.token.fetch.latency", m.connections.oauthTokenFetchLatency⟩]

theorem Metrics.nodup_pushes (metrics : Metrics) (client : ClientType) :
    ((metrics.scalars.filter (relevant client ·.part)).map (·.push)).Nodup := by
  have same : (metrics.scalars.filter (relevant client ·.part)).map (·.push) =
      ((({} : Metrics).scalars.filter (relevant client ·.part)).map (·.push)) := by
    cases client <;> rfl
  rw [same]
  cases client <;> decide +kernel

/-- `GaugeF64` holds nanoseconds here, milliseconds in the source. -/
inductive Value where
  | sum (total : Nat)
  | gauge (value : Nat)
  | gaugeF64 (nanos : Nat)

structure Point where
  name : String
  value : Value

def ClientType.lead (client : ClientType) : String := "org.apache.kafka." ++ client.name ++ "."

def metricName (client : ClientType) (suffix : String) : String := client.lead ++ suffix

def Scalar.point (client : ClientType) (m : Scalar) : Point where
  name := metricName client m.push
  value := match m.kind with
    | .counter => .sum m.value
    | .gauge => .gauge m.value

def Timed.points (client : ClientType) (m : Timed) : List Point :=
  [⟨metricName client (m.push ++ ".avg"), .gaugeF64 (m.value.mean.getD 0)⟩,
    ⟨metricName client (m.push ++ ".max"), .gaugeF64 m.value.max⟩]

def points (metrics : Metrics) (client : ClientType) : List Point :=
  (metrics.scalars.filter (relevant client ·.part)).map (Scalar.point client) ++
    (metrics.latencies.filter (relevant client ·.part)).flatMap (Timed.points client)

def Point.since (pushed : AList fun _ : String => Nat) (p : Point) : Point :=
  match p.value with
  | .sum total => { p with value := .sum (total - (pushed.lookup p.name).getD 0) }
  | _ => p

def sums (points : List Point) : List (String × Nat) :=
  points.filterMap fun p => match p.value with
    | .sum total => some (p.name, total)
    | _ => none

def sumOf (name : String) (points : List Point) : Option Nat := (sums points).lookup name

theorem metricName_injective (client : ClientType) : Function.Injective (metricName client) := by
  intro a b same
  have chars : (client.lead ++ a).toList = (client.lead ++ b).toList := congrArg String.toList same
  rw [String.toList_append, String.toList_append] at chars
  exact String.toList_injective (List.append_cancel_left chars)

theorem sums_points (metrics : Metrics) (client : ClientType) :
    sums (points metrics client) =
      sums ((metrics.scalars.filter (relevant client ·.part)).map (Scalar.point client)) := by
  have none_timed : sums ((metrics.latencies.filter (relevant client ·.part)).flatMap
      (Timed.points client)) = [] := by
    rw [sums, List.filterMap_eq_nil_iff]
    intro p held
    obtain ⟨m, -, inside⟩ := List.mem_flatMap.mp held
    simp only [Timed.points, List.mem_cons, List.not_mem_nil, or_false] at inside
    rcases inside with rfl | rfl <;> rfl
  rw [points, sums, List.filterMap_append, ← sums, ← sums, none_timed, List.append_nil]

theorem nodup_sums_points (metrics : Metrics) (client : ClientType) :
    ((sums (points metrics client)).map (·.1)).Nodup := by
  have names : ((sums ((metrics.scalars.filter (relevant client ·.part)).map
      (Scalar.point client))).map (·.1)).Sublist
      ((metrics.scalars.filter (relevant client ·.part)).map fun m => metricName client m.push) := by
    generalize metrics.scalars.filter (relevant client ·.part) = scalars
    induction scalars with
    | nil => exact List.Sublist.slnil
    | cons m scalars ih =>
      cases kind : m.kind with
      | counter => simpa [sums, Scalar.point, kind] using ih
      | gauge => simpa [sums, Scalar.point, kind] using ih.cons _
  rw [sums_points]
  refine names.nodup ?_
  have distinct := (metrics.nodup_pushes client).map (metricName_injective client)
  rwa [List.map_map] at distinct

/-- Two states of one line of the table: a counter has not become less. -/
def Scalar.Grows (earlier later : Scalar) : Prop :=
  later = { earlier with value := later.value } ∧
    (earlier.kind = .counter → earlier.value ≤ later.value)

theorem sumOf_le {client : ClientType} {name : String} {v v' : Nat} {earlier later : List Scalar}
    (grows : List.Forall₂ Scalar.Grows earlier later)
    (now : sumOf name ((earlier.filter (relevant client ·.part)).map (Scalar.point client)) =
      some v)
    (after : sumOf name ((later.filter (relevant client ·.part)).map (Scalar.point client)) =
      some v') : v ≤ v' := by
  induction grows with
  | nil => cases now
  | @cons m m' earlier later one _ ih =>
    obtain ⟨part, kind, push, value⟩ := m
    obtain ⟨same, le⟩ := one
    rw [same] at after
    cases shown : relevant client part with
    | false => exact ih (by simpa [shown] using now) (by simpa [shown] using after)
    | true =>
      cases kind with
      | gauge =>
        exact ih (by simpa [shown, sumOf, sums, Scalar.point] using now)
          (by simpa [shown, sumOf, sums, Scalar.point] using after)
      | counter =>
        simp only [List.filter_cons, shown, if_true, List.map_cons, sumOf, sums, Scalar.point,
          List.filterMap_cons, List.lookup_cons] at now after
        split at now
        case h_1 here =>
          rw [here] at after
          cases now
          cases after
          exact le rfl
        case h_2 other =>
          rw [other] at after
          exact ih now after

theorem lookup_map_since (pushed : AList fun _ : String => Nat) (name : String)
    (points : List Point) :
    sumOf name (points.map (Point.since pushed)) =
      (sumOf name points).map (· - (pushed.lookup name).getD 0) := by
  unfold sumOf sums
  induction points with
  | nil => rfl
  | cons p points ih =>
    obtain ⟨key, value⟩ := p
    cases value with
    | sum =>
      simp only [List.map_cons, List.filterMap_cons, Point.since, List.lookup_cons]
      by_cases here : name = key
      · subst here
        simp only [beq_self_eq_true, Option.map_some]
      · simpa only [beq_false_of_ne here] using ih
    | gauge | gaugeF64 => simpa only [List.map_cons, List.filterMap_cons, Point.since] using ih

theorem lookup_eq_some {l : List (String × Nat)} (nodup : (l.map (·.1)).Nodup) {name : String}
    {total : Nat} : l.lookup name = some total ↔ (name, total) ∈ l := by
  induction l with
  | nil => simp
  | cons e l ih =>
    obtain ⟨key, v⟩ := e
    rw [List.map_cons, List.nodup_cons] at nodup
    by_cases here : name = key
    · subst here
      have gone : (name, total) ∉ l := fun held => nodup.1 (List.mem_map.mpr ⟨_, held, rfl⟩)
      simp [gone, eq_comm]
    · simp [List.lookup_cons, beq_false_of_ne here, here, ih nodup.2]

theorem lookup_insertAll {l : List (String × Nat)} (nodup : (l.map (·.1)).Nodup)
    (m : AList fun _ : String => Nat) (name : String) :
    (m.insertAll l).lookup name = (l.lookup name).or (m.lookup name) := by
  cases found : l.lookup name with
  | some => exact AList.lookup_insertAll_of_mem nodup ((lookup_eq_some nodup).mp found) m
  | none =>
    refine AList.lookup_insertAll_of_notMem (fun held => ?_) m
    obtain ⟨⟨_, total⟩, there, rfl⟩ := List.mem_map.mp held
    rw [(lookup_eq_some nodup).mpr there] at found
    cases found

end Krafka.Telemetry
