import Krafka.Metadata.Cache

/-! Metadata requests and the writer task that serves them. Requests are gathered in one pending
set; the writer takes the whole set, fetches what it names and answers everyone in it. Each
stage below ends where the writer awaits something, so that requests, rebootstraps and leader
hints can come between any two of them. -/

namespace Krafka.Metadata

structure PendingFetch where
  full : Bool := false
  topics : KeySet String := KeySet.empty
  waiters : List Nat := []
  rebootstrap : Bool := false

namespace PendingFetch

def isEmpty (p : PendingFetch) : Bool := !p.full && !p.rebootstrap && p.waiters.isEmpty

def asked (p : PendingFetch) : Option (List String) := if p.full then none else some p.topics.keys

def register (p : PendingFetch) (id : Nat) (topics : Option (List String)) : PendingFetch :=
  match topics with
  | none => { p with full := true, waiters := p.waiters ++ [id] }
  | some names =>
    { p with topics := names.foldl KeySet.insert p.topics, waiters := p.waiters ++ [id] }

end PendingFetch

structure Attempt where
  batch : PendingFetch
  rebootstrapped : Bool := false
  passes : Nat := 0

inductive WriterStage where
  | unstarted
  | top
  | backoff
  | requested (batch : PendingFetch)
  | taken (batch : PendingFetch)
  | resetting (attempt : Attempt)
  | passing (attempt : Attempt)
  | connecting (attempt : Attempt) (fetch : Nat) (resetEpoch : Nat)
  | waiting (attempt : Attempt) (fetch : Nat) (resetEpoch : Nat)
  | answering (batch : PendingFetch) (result : Result Unit)
  | stopped

structure WriterAnswer where
  connection : Result Unit := .ok ()
  response : Result MetadataResponse := .ok {}
  overdue : Bool := false
  now : Instant := 0
  nowMs : Nat := 1

inductive Event where
  | registered (id : Nat) (topics : Option (List String))
  | current (id : Nat)
  | started (fetch : Nat)
  | built (fetch : Nat) (asked : Option (List String))
  | applied (fetch : Nat)
  | reset
  | answered (id : Nat) (result : Result Unit)

structure MetadataConfig where
  maxAge : Duration := 300000000000
  topicTtl : Option Duration := some 300000000000
  rebootstrapEnabled : Bool := true

structure ClusterMetadata where
  config : MetadataConfig
  cache : MetadataCache := {}
  pending : PendingFetch := {}
  writer : WriterStage := .unstarted
  closed : Bool := false
  abandoned : List Nat := []
  requests : Nat := 0
  fetches : Nat := 0
  trace : List Event := []

inductive MetadataInput where
  | request (topics : Option (List String)) (force : Bool) (now : Instant) (nowMs : Nat)
  | abandon (id : Nat)
  | rebootstrap (now : Instant)
  | requestRebootstrap
  | hint (hint : LeaderHint) (nowMs : Nat)
  | touch (topics : List String) (nowMs : Nat)
  | drop
  | write (answer : WriterAnswer)

namespace ClusterMetadata

variable (m : ClusterMetadata)

def emit (events : List Event) : ClusterMetadata := { m with trace := m.trace ++ events }

def allFresh (names : List String) (now : Instant) : Bool :=
  !m.cache.brokers.entries.isEmpty && names.all fun name => m.cache.topicIsFresh name now m.config.maxAge

def touchTopics (topics : List String) (nowMs : Nat) : ClusterMetadata :=
  { m with cache := m.cache.touchTopics m.config.topicTtl topics nowMs }

def wakeWriter : ClusterMetadata :=
  match m.writer with
  | .unstarted => { m with writer := .top }
  | _ => m

def register (topics : Option (List String)) : ClusterMetadata :=
  wakeWriter { m with
    pending := m.pending.register m.requests topics
    requests := m.requests + 1
    trace := m.trace ++ [Event.registered m.requests topics] }

def request (topics : Option (List String)) (force : Bool) (now : Instant) (nowMs : Nat) :
    ClusterMetadata :=
  match topics with
  | none => m.register none
  | some names =>
    let m := m.touchTopics names nowMs
    if !force && m.allFresh names now then
      { m with requests := m.requests + 1, trace := m.trace ++ [Event.current m.requests] }
    else m.register (some names)

def resetToSeeds (now : Instant) : ClusterMetadata :=
  { m with cache := m.cache.resetToSeeds now }.emit [.reset]

/-- Apply a response unless a rebootstrap happened since its fetch started. -/
def apply (response : MetadataResponse) (fullRefresh : Bool) (resetEpoch : Nat) (now : Instant)
    (nowMs : Nat) : Option MetadataCache :=
  if m.cache.resetEpoch ≠ resetEpoch then none
  else some (m.cache.merge response fullRefresh m.config.topicTtl now nowMs)

def answer (waiters : List Nat) (result : Result Unit) : ClusterMetadata :=
  m.emit ((waiters.filter (· ∉ m.abandoned)).map fun id => .answered id result)

def go (stage : WriterStage) : ClusterMetadata := { m with writer := stage }

def pass (attempt : Attempt) : ClusterMetadata :=
  if attempt.passes < 3 then
    { m with
      writer := .connecting { attempt with passes := attempt.passes + 1 } m.fetches
        m.cache.resetEpoch
      fetches := m.fetches + 1
      trace := m.trace ++ [Event.started m.fetches] }
  else
    m.go (.answering attempt.batch
      (.error (.network "metadata was reset while the fetch was in flight")))

def write (answer : WriterAnswer) : ClusterMetadata :=
  match m.writer with
  | .unstarted | .stopped => m
  | .top =>
    if m.closed then
      -- `fail_pending`
      { m.answer m.pending.waiters (.error (.closed "cluster metadata was dropped")) with
        pending := {}, writer := .stopped }
    else if m.pending.isEmpty then m
    else m.go .backoff
  | .backoff =>
    { m with
      pending := {}
      writer := if m.pending.rebootstrap then .requested m.pending else .taken m.pending }
  | .requested batch => (m.resetToSeeds answer.now).go (.taken batch)
  | .taken batch =>
    if batch.waiters.all (· ∈ m.abandoned) then m.go .top
    else if m.config.rebootstrapEnabled && answer.overdue then
      m.go (.resetting { batch, rebootstrapped := true })
    else m.go (.passing { batch })
  | .resetting attempt => (m.resetToSeeds answer.now).go (.passing attempt)
  | .passing attempt => m.pass attempt
  | .connecting attempt fetch resetEpoch =>
    match answer.connection with
    | .ok () =>
      { m with
        writer := .waiting attempt fetch resetEpoch
        trace := m.trace ++ [Event.built fetch attempt.batch.asked] }
    | .error error =>
      if m.config.rebootstrapEnabled && !attempt.rebootstrapped &&
          !m.cache.brokers.entries.isEmpty then
        m.go (.resetting { attempt with rebootstrapped := true })
      else m.go (.answering attempt.batch (.error error))
  | .waiting attempt fetch resetEpoch =>
    match answer.response with
    | .error error => m.go (.answering attempt.batch (.error error))
    | .ok response =>
      if response.errorCode = .rebootstrapRequired && m.config.rebootstrapEnabled &&
          !attempt.rebootstrapped then
        m.go (.resetting { attempt with rebootstrapped := true })
      else if response.errorCode ≠ .none then
        m.go (.answering attempt.batch
          (.error (.broker response.errorCode "metadata request failed")))
      else
        match m.apply response attempt.batch.full resetEpoch answer.now answer.nowMs with
        | some cache =>
          { m with
            cache
            writer := .answering attempt.batch (.ok ())
            trace := m.trace ++ [Event.applied fetch] }
        | none => m.go (.passing attempt)
  | .answering batch result => (m.answer batch.waiters result).go .top

def step : MetadataInput → ClusterMetadata
  | .request topics force now nowMs => m.request topics force now nowMs
  | .abandon id => { m with abandoned := id :: m.abandoned }
  | .rebootstrap now => m.resetToSeeds now
  | .requestRebootstrap => wakeWriter { m with pending := { m.pending with rebootstrap := true } }
  | .hint hint nowMs =>
    if hint.leaderId < 0 then m
    else
      let m := m.touchTopics [hint.topic] nowMs
      { m with cache := (m.cache.applyLeaderHint hint).getD m.cache }
  | .touch topics nowMs => m.touchTopics topics nowMs
  | .drop => { m with closed := true }
  | .write answer => m.write answer

end ClusterMetadata

namespace ClusterMetadata

def run (config : MetadataConfig) (inputs : List MetadataInput) : ClusterMetadata :=
  inputs.foldl step { config }

end ClusterMetadata

end Krafka.Metadata
