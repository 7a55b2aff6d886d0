import Krafka.Error
import Krafka.Library.Maps
import Krafka.Library.Texts
import Mathlib.Data.List.AList

/-! The connection pool. Every change happens under one lock, and a step below is one section
under it. Dials run in tasks of their own and come back to the pool when they are done; whether a
connection is alive, expired or idle is decided elsewhere and enters with the inputs. -/

namespace Krafka.Network

abbrev Instant := Nat
abbrev Duration := Nat

inductive ConnectionPurpose where
  | data
  | coordination
  deriving DecidableEq

abbrev PoolKey := String × ConnectionPurpose

structure BrokerConnection where
  number : Nat
  address : String
  deriving DecidableEq

structure ReconnectState where
  failures : Nat
  nextAttemptAt : Instant
  lastError : KrafkaError

def ReconnectState.errorInWindow (r : ReconnectState) (address : String) (now : Instant) :
    KrafkaError :=
  if !r.lastError.isRetriable then r.lastError
  else
    let wait := Texts.debugDuration (r.nextAttemptAt - now)
    let last := r.lastError.display
    let failures := r.failures
    .network (s!"not reconnecting to {address} for another {wait} after {failures} failed " ++
      s!"attempt(s); last error: {last}")

def connectionCapError (limit : Nat) (address : String) : KrafkaError :=
  .network (s!"connection pool limit reached: {limit} connections open, none to {address} " ++
    "(raise `max_connections` or reduce the number of brokers in use)")

def poolClosedError (address : String) : KrafkaError :=
  .network s!"pool closed while connecting to {address}"

structure PoolState where
  byId : AList fun _ : Int => BrokerConnection := ∅
  byKey : AList fun _ : PoolKey => BrokerConnection := ∅
  dialing : AList fun _ : PoolKey => List Nat := ∅
  reconnect : AList fun _ : String => ReconnectState := ∅
  generation : Nat := 0
  fallbackWarned : Bool := false

/-- A dial task: the pool generation it started in goes with it. -/
structure Dial where
  serial : Nat
  key : PoolKey
  generation : Nat
  deriving DecidableEq

inductive DialOutcome where
  | connected
  | failed (error : KrafkaError)
  | timedOut

inductive Answerer where
  | dial (dial : Dial)
  | closeAll (generation : Nat)

inductive Event where
  | waits (call : Nat) (key : PoolKey) (generation : Nat)
  | started (dial : Dial)
  | ended (dial : Dial) (result : Result BrokerConnection)
  | returned (call : Nat) (result : Result BrokerConnection)
  | answered (call : Nat) (answerer : Answerer) (result : Result BrokerConnection)
  | closeWhenIdle (conn : BrokerConnection)
  | closeNow (conn : BrokerConnection)

structure ConnectionPool where
  connectTimeout : Duration := 30000000000
  maxIdle : Option Duration := some 540000000000
  maxTotalConnections : Option Nat := none
  state : PoolState := {}
  running : List Dial := []
  dead : List Nat := []
  expired : List Nat := []
  fallingBack : List (Nat × String) := []
  held : AList fun _ : Nat => BrokerConnection := ∅
  abandoned : List Nat := []
  calls : Nat := 0
  dials : Nat := 0
  connections : Nat := 0
  trace : List Event := []

inductive Input where
  | get (now : Instant) (address : String) (purpose : ConnectionPurpose)
  | fallBack (now : Instant) (call : Nat)
  | register (brokerId : Int) (call : Nat)
  | abandon (call : Nat)
  | finish (now : Instant) (serial : Nat) (outcome : DialOutcome) (backoff : Nat → Duration)
  | evictIdle (byId byKey : BrokerConnection → Duration)
  | closeAll
  | die (conn : Nat)
  | expire (conn : Nat)

namespace ConnectionPool

variable (p : ConnectionPool)

def isAlive (conn : BrokerConnection) : Bool := conn.number ∉ p.dead

def isUsable (conn : BrokerConnection) : Bool := p.isAlive conn && conn.number ∉ p.expired

def live : Nat := (p.state.byKey.entries.filter fun e => p.isAlive e.2).length

def countedConnections : Nat := p.live + p.state.dialing.entries.length

def emit (events : List Event) : ConnectionPool := { p with trace := p.trace ++ events }

def returns (result : Result BrokerConnection) : ConnectionPool :=
  { p with
    calls := p.calls + 1
    held := match result with
      | .ok conn => p.held.insert p.calls conn
      | .error _ => p.held
    trace := p.trace ++ [.returned p.calls result] }

def waits (key : PoolKey) : ConnectionPool :=
  { p with
    calls := p.calls + 1
    state := { p.state with
      dialing := p.state.dialing.insert key ((p.state.dialing.lookup key).getD [] ++ [p.calls]) }
    trace := p.trace ++ [.waits p.calls key p.state.generation] }

def removeStale (key : PoolKey) : ConnectionPool :=
  match p.state.byKey.lookup key with
  | none => p
  | some stale =>
    let p := { p with
      state := { p.state with
        byKey := p.state.byKey.erase key
        byId := p.state.byId.retain fun _ conn => conn ≠ stale } }
    if p.isAlive stale then p.emit [.closeWhenIdle stale] else p

def dial (key : PoolKey) : ConnectionPool :=
  let dial : Dial := ⟨p.dials, key, p.state.generation⟩
  { p.waits key with
    running := p.running ++ [dial]
    dials := p.dials + 1
    trace := (p.waits key).trace ++ [.started dial] }

def get (now : Instant) (key : PoolKey) : ConnectionPool :=
  match (p.state.byKey.lookup key).filter p.isUsable with
  | some conn => p.returns (.ok conn)
  | none =>
    if (p.state.dialing.lookup key).isSome then p.waits key
    else
      match (p.state.reconnect.lookup key.1).filter fun r => now < r.nextAttemptAt with
      | some r => p.returns (.error (r.errorInWindow key.1 now))
      | none =>
        let p := p.removeStale key
        match p.maxTotalConnections.filter fun limit => limit ≤ p.countedConnections with
        | some limit =>
          match key.2 with
          | .coordination =>
            { p with
              calls := p.calls + 1
              state := { p.state with fallbackWarned := true }
              fallingBack := p.fallingBack ++ [(p.calls, key.1)] }
          | .data => p.returns (.error (connectionCapError limit key.1))
        | none => p.dial key

def answer (waiters : List Nat) (answerer : Answerer)
    (result : Result BrokerConnection) : ConnectionPool :=
  let there := waiters.filter (· ∉ p.abandoned)
  { p with
    held := match result with
      | .ok conn => p.held.insertAll (there.map (·, conn))
      | .error _ => p.held
    trace := p.trace ++ there.map fun call => .answered call answerer result }

def settle (now : Instant) (dial : Dial) (outcome : DialOutcome) (backoff : Nat → Duration) :
    ConnectionPool × Result BrokerConnection :=
  let address := dial.key.1
  let failed (error : KrafkaError) : ConnectionPool × Result BrokerConnection :=
    let failures := ((p.state.reconnect.lookup address).map (·.failures)).getD 0 + 1
    ({ p with
      state := { p.state with
        reconnect := p.state.reconnect.insert address ⟨failures, now + backoff failures, error⟩ } },
     .error error)
  match outcome with
  | .connected =>
    let conn : BrokerConnection := ⟨p.connections, address⟩
    let p := { p with connections := p.connections + 1 }
    if p.state.generation ≠ dial.generation then
      (p.emit [.closeWhenIdle conn], .error (poolClosedError address))
    else
      ({ p with
        state := { p.state with
          reconnect := p.state.reconnect.erase address
          byKey := p.state.byKey.insert dial.key conn } },
       .ok conn)
  | .failed error => failed error
  | .timedOut =>
    let limit := Texts.debugDuration p.connectTimeout
    failed (.timeout s!"connection to {address} was not established within {limit}")

def takeOut (dial : Dial) : ConnectionPool :=
  { p with
    running := p.running.erase dial
    state := { p.state with dialing := p.state.dialing.erase dial.key } }

def finish (now : Instant) (serial : Nat) (outcome : DialOutcome) (backoff : Nat → Duration) :
    ConnectionPool :=
  match p.running.find? (·.serial = serial) with
  | none => p
  | some dial =>
    let waiters := (p.state.dialing.lookup dial.key).getD []
    let settled := (p.takeOut dial).settle now dial outcome backoff
    (settled.1.emit [.ended dial settled.2]).answer waiters (.dial dial) settled.2

def evictIdle (byId byKey : BrokerConnection → Duration) : ConnectionPool :=
  match p.maxIdle with
  | none => p
  | some maxIdle =>
    let removed :=
      ((p.state.byId.entries.filter fun e => maxIdle ≤ byId e.2).map (·.2) ++
        (p.state.byKey.entries.filter fun e => maxIdle ≤ byKey e.2).map (·.2)).dedup
    { p with
      state := { p.state with
        byId := p.state.byId.retain fun _ conn => byId conn < maxIdle
        byKey := p.state.byKey.retain fun _ conn => byKey conn < maxIdle } }.emit
      (removed.map .closeNow)

def closeAll : ConnectionPool :=
  let closed := p.state.byId.entries.map (·.2) ++ p.state.byKey.entries.map (·.2)
  let drained := { p with
    state := { p.state with
      generation := p.state.generation + 1
      reconnect := ∅
      byId := ∅
      byKey := ∅
      dialing := ∅ } }
  (p.state.dialing.entries.foldl (fun drained e =>
    drained.answer e.2 (.closeAll p.state.generation) (.error (poolClosedError e.1.1)))
    drained).emit (closed.map .closeNow)

def step : Input → ConnectionPool
  | .get now address purpose => p.get now (address, purpose)
  | .fallBack now call =>
    match p.fallingBack.find? (·.1 = call) with
    | none => p
    | some (call, address) =>
      { p with fallingBack := p.fallingBack.erase (call, address) }.get now (address, .data)
  | .register brokerId call =>
    match p.held.lookup call with
    | none => p
    | some conn => { p with state := { p.state with byId := p.state.byId.insert brokerId conn } }
  | .abandon call => { p with abandoned := call :: p.abandoned }
  | .finish now serial outcome backoff => p.finish now serial outcome backoff
  | .evictIdle byId byKey => p.evictIdle byId byKey
  | .closeAll => p.closeAll
  | .die conn => { p with dead := conn :: p.dead }
  | .expire conn => { p with expired := conn :: p.expired }

def currentKeys : List PoolKey :=
  (p.running.filter (·.generation = p.state.generation)).map (·.key)

def run (inputs : List Input) : ConnectionPool := inputs.foldl step p

end ConnectionPool

def ConnectionPool.new (connectTimeout : Duration) (maxIdle : Option Duration)
    (maxTotalConnections : Option Nat) : ConnectionPool :=
  { connectTimeout, maxIdle, maxTotalConnections }

end Krafka.Network
