import Krafka.Library.Runs
import Krafka.Producer.Engine

/-! Runs of the send engine. The task's loop expires, drains and then takes one arm of its
`select!`; here those are separate inputs in any order, which covers every loop. -/

namespace Krafka.Producer

inductive Input where
  | command (now : Instant) (command : Command)
  | expire (now : Instant)
  | drain (now : Instant) (leader : PartitionKey → Option Int) (delay : Nat → Duration)
  | complete (now : Instant) (delay : Nat → Duration) (serial : Nat) (results : List BatchResult)
  | refreshed
  | reinitialised (result : Result (Int × Int))
  | closed
  | reordered (order : List PartitionKey)

/-- `produce` gives every batch of its request one result. -/
def Request.AnsweredBy (request : Request) (results : List BatchResult) : Prop :=
  (results.map (·.key)).Perm (request.wire.map (·.key))

instance (request : Request) (results : List BatchResult) :
    Decidable (request.AnsweredBy results) := inferInstanceAs (Decidable (List.Perm _ _))

namespace Engine

def spawn (config : EngineConfig) : Engine :=
  { config
    mode := config.mode
    identity :=
      match config.mode, config.identity with
      | .plain, _ => .plain
      | .idempotent, some (producerId, epoch) => .ready { producerId, epoch, generation := 1 }
      | .idempotent, none => .init
      | .transactional _, _ => .uninit }

def finish (s : Engine) (now : Instant) (delay : Nat → Duration) (serial : Nat)
    (results : List BatchResult) : Engine :=
  match s.requests.find? (·.serial = serial) with
  | none => s
  | some request =>
    if request.AnsweredBy results then
      { s with requests := s.requests.erase request }.complete now delay
        { broker := request.broker, results }
    else s

def reorder (s : Engine) (order : List PartitionKey) : Engine :=
  { s with
    active :=
      if h : order.Perm s.active.keys then ⟨order, h.nodup_iff.mpr s.active.nodup⟩ else s.active }

def step (s : Engine) : Input → Engine
  | .command now command => if s.channelClosed then s else s.handle now command
  | .expire now => s.expire now
  | .drain now leader delay => s.drain now leader delay
  | .complete now delay serial results => s.finish now delay serial results
  | .refreshed => { s with refresh := none }
  | .reinitialised result => if s.reinit then s.reinitialised result else s
  | .closed => if s.channelClosed then s else s.close
  | .reordered order => s.reorder order

def run (config : EngineConfig) (inputs : List Input) : Engine := inputs.foldl step (spawn config)

theorem run_append (config : EngineConfig) (inputs more : List Input) :
    run config (inputs ++ more) = more.foldl step (run config inputs) := List.foldl_append

end Engine

/-! A small producer for runs on concrete inputs. -/

def sampleConfig (mode : Mode) : EngineConfig :=
  { batchSize := 16384, linger := 0, deliveryTimeout := 100, maxRequestSize := 1048576, mode
    identity := some (7, 0) }

def sampleKey : PartitionKey := ("t", 0)

def appendTo (partition : Int) : Input :=
  .command 0 (.append { topic := "t", partition, data := {}, size := 1, generation := 0 })

def sampleAppend : Input := appendTo 0

def sampleDrain : Input := .drain 0 (fun _ => some 1) fun _ => 0

def sampleDone (serial : Nat) (outcome : BatchOutcome) : Input :=
  .complete 0 (fun _ => 0) serial [{ key := sampleKey, outcome }]

end Krafka.Producer
