import Krafka.Library.Runs
import Krafka.Telemetry.Metrics

/-! The telemetry reporter: one turn of its loop after another, the metrics of each push as totals
or as differences to the last accepted push, and what the differences of the accepted pushes add
up to. -/

namespace Krafka.Telemetry

structure Subscription where
  subscriptionId : Int
  delta : Bool
  maxBytes : Nat
  requested : List String

def Subscription.wants (s : Subscription) (name : String) : Bool :=
  s.requested.any fun lead => lead = "*" || lead.toList.isPrefixOf name.toList

inductive Pushed where
  | ok | resubscribe | retry | stop
  deriving DecidableEq

/-- What became of the request: its answer, or none, and whether the broker had taken it. -/
inductive Answer where
  | code (code : ErrorCode)
  | lost (taken : Bool)

inductive Connecting where
  | found | unsupported | failed
  deriving DecidableEq

structure Turn where
  stopped : Bool := false
  snapshot : Metrics
  encoded : Option Nat := some 0
  connection : Connecting := .found
  answer : Answer
  next : Option Subscription := none

structure Accepted where
  snapshot : Metrics
  points : List Point

structure Reporter where
  client : ClientType
  subscription : Subscription
  pushed : AList fun _ : String => Nat := ∅
  running : Bool := true
  accepted : List Accepted := []

namespace Reporter

def selected (r : Reporter) (snapshot : Metrics) : List Point :=
  (Telemetry.points snapshot r.client).filter (r.subscription.wants ·.name)

def payload (r : Reporter) (snapshot : Metrics) : List Point :=
  if r.subscription.delta then (r.selected snapshot).map (Point.since r.pushed)
  else r.selected snapshot

def take (r : Reporter) (snapshot : Metrics) : Reporter :=
  { r with accepted := r.accepted ++ [⟨snapshot, r.payload snapshot⟩] }

def push (r : Reporter) (t : Turn) : Pushed × Reporter :=
  if (r.selected t.snapshot).isEmpty ∧ ¬ t.stopped then (.ok, r)
  else
    match t.encoded with
    | none => (.stop, r)
    | some size =>
      if r.subscription.maxBytes < size then (.retry, r)
      else
        match t.connection with
        | .failed => (.retry, r)
        | .unsupported => (.stop, r)
        | .found =>
          match t.answer with
          | .lost taken => (.retry, if taken then r.take t.snapshot else r)
          | .code .none =>
            (.ok, { r.take t.snapshot with
              pushed := r.pushed.insertAll (sums (r.selected t.snapshot)) })
          | .code .unknownSubscriptionId | .code .unsupportedCompressionType
          | .code .telemetryTooLarge => (.resubscribe, r)
          | .code .invalidRequest | .code .invalidRecord | .code .unsupportedVersion => (.stop, r)
          | .code _ => (.retry, r)

def afterPush (t : Turn) : Pushed × Reporter → Reporter
  | (.ok, r) | (.retry, r) => r
  | (.stop, r) => { r with running := false }
  | (.resubscribe, r) =>
    if t.stopped then r
    else
      match t.next with
      | some next => { r with pushed := ∅, subscription := next }
      | none => { r with running := false }

def turn (r : Reporter) (t : Turn) : Reporter :=
  if ¬ r.running then r
  else if r.subscription.requested.isEmpty then
    if t.stopped then { r with running := false }
    else
      match t.next with
      | some next => { r with subscription := next }
      | none => { r with running := false }
  else
    let r := afterPush t (r.push t)
    if t.stopped then { r with running := false } else r

def Clears (r : Reporter) (t : Turn) : Prop :=
  r.running ∧ r.subscription.requested ≠ [] ∧ (r.push t).1 = .resubscribe ∧
    t.stopped = false ∧ t.next.isSome

inductive Does (r : Reporter) (t : Turn) (r' : Reporter) : Prop
  | nothing (accepted : r'.accepted = r.accepted) (pushed : r'.pushed = r.pushed)
  | push (accepted : r'.accepted = r.accepted ++ [⟨t.snapshot, r.payload t.snapshot⟩])
      (pushed : r'.pushed = r.pushed.insertAll (sums (r.selected t.snapshot)))
  | clear (clears : r.Clears t) (accepted : r'.accepted = r.accepted) (pushed : r'.pushed = ∅)

theorem push_cases (r : Reporter) (t : Turn) (answered : ∀ taken, t.answer ≠ .lost taken) :
    (r.push t).2 = r ∨ ((r.push t).1 = .ok ∧
      (r.push t).2 = { r.take t.snapshot with
        pushed := r.pushed.insertAll (sums (r.selected t.snapshot)) }) := by
  unfold push
  split
  · exact .inl rfl
  split
  · exact .inl rfl
  split
  · exact .inl rfl
  split
  · exact .inl rfl
  · exact .inl rfl
  split
  next taken eq => exact absurd eq (answered taken)
  · exact .inr ⟨rfl, rfl⟩
  all_goals exact .inl rfl

theorem turn_does (r : Reporter) (t : Turn) (answered : ∀ taken, t.answer ≠ .lost taken) :
    Does r t (r.turn t) := by
  unfold turn
  split
  · exact .nothing rfl rfl
  next live =>
  split
  · split
    · exact .nothing rfl rfl
    · split <;> exact .nothing rfl rfl
  next wanted =>
  have after : Does r t (afterPush t (r.push t)) := by
    rcases push_cases r t answered with same | ⟨ok, new⟩
    · rcases pushing : r.push t with ⟨pushed, r'⟩
      rw [pushing] at same
      subst same
      cases pushed with
      | ok | retry | stop => exact .nothing rfl rfl
      | resubscribe =>
        simp only [afterPush]
        split
        · exact .nothing rfl rfl
        next going =>
        split
        next eq =>
          exact .clear ⟨by simpa using live, by simpa using wanted, by rw [pushing],
            by simpa using going, by simp [eq]⟩ rfl rfl
        · exact .nothing rfl rfl
    · rcases pushing : r.push t with ⟨pushed, r'⟩
      rw [pushing] at ok new
      subst ok new
      exact .push rfl rfl
  dsimp only
  split
  · cases after with
    | nothing accepted pushed => exact .nothing accepted pushed
    | push accepted pushed => exact .push accepted pushed
    | clear clears accepted pushed => exact .clear clears accepted pushed
  · exact after

theorem push_frame (r : Reporter) (t : Turn) :
    (r.push t).2.client = r.client ∧ (r.push t).2.subscription = r.subscription := by
  unfold push take
  repeat' split
  all_goals exact ⟨rfl, rfl⟩

theorem turn_frame (r : Reporter) (t : Turn) :
    (r.turn t).client = r.client ∧
      ((r.turn t).subscription = r.subscription ∨ t.next = some (r.turn t).subscription) := by
  have after : (afterPush t (r.push t)).client = r.client ∧
      ((afterPush t (r.push t)).subscription = r.subscription ∨
        t.next = some (afterPush t (r.push t)).subscription) := by
    have frame := push_frame r t
    rcases pushing : r.push t with ⟨pushed, r'⟩
    rw [pushing] at frame
    obtain ⟨client, subscription⟩ := frame
    cases pushed with
    | ok | retry | stop => exact ⟨client, .inl subscription⟩
    | resubscribe =>
      simp only [afterPush]
      split
      · exact ⟨client, .inl subscription⟩
      split
      next next eq => exact ⟨client, .inr eq⟩
      · exact ⟨client, .inl subscription⟩
  unfold turn
  split
  · exact ⟨rfl, .inl rfl⟩
  split
  · split
    · exact ⟨rfl, .inl rfl⟩
    split
    next next eq => exact ⟨rfl, .inr eq⟩
    · exact ⟨rfl, .inl rfl⟩
  dsimp only
  split <;> exact after

/-! ## What the differences add up to -/

def values (name : String) (accepted : List Accepted) : List Nat :=
  accepted.filterMap fun a => sumOf name a.points

def totals (client : ClientType) (name : String) (accepted : List Accepted) : List Nat :=
  (accepted.filter fun a => (sumOf name a.points).isSome).filterMap fun a =>
    sumOf name (Telemetry.points a.snapshot client)

def NoLess (earlier later : Metrics) : Prop :=
  ∀ client name v v', sumOf name (Telemetry.points earlier client) = some v →
    sumOf name (Telemetry.points later client) = some v' → v ≤ v'

theorem noLess_of_scalars {earlier later : Metrics}
    (grows : List.Forall₂ Scalar.Grows earlier.scalars later.scalars) : NoLess earlier later := by
  intro client name v v' now after
  rw [sumOf, sums_points] at now after
  exact sumOf_le grows now after

/-- The base of a re-subscription is given up only while there is none. -/
def KeepsBase (r : Reporter) (t : Turn) : Prop := r.Clears t → r.pushed = ∅

structure Balanced (r : Reporter) : Prop where
  total : ∀ name, (values name r.accepted).sum = (r.pushed.lookup name).getD 0
  last : ∀ name, r.pushed.lookup name = (totals r.client name r.accepted).getLast?

theorem sums_selected (r : Reporter) (snapshot : Metrics) :
    ((sums (r.selected snapshot)).map (·.1)).Nodup :=
  (((List.filter_sublist.filterMap _).map _).nodup (nodup_sums_points snapshot r.client))

variable {r : Reporter}

theorem sumOf_selected {snapshot : Metrics} {name : String} {total : Nat}
    (found : sumOf name (r.selected snapshot) = some total) :
    sumOf name (Telemetry.points snapshot r.client) = some total := by
  rw [sumOf, lookup_eq_some (sums_selected r snapshot)] at found
  rw [sumOf, lookup_eq_some (nodup_sums_points snapshot r.client)]
  exact (List.filter_sublist.filterMap _).subset found

variable {t : Turn}

theorem Balanced.push {r' : Reporter} (balanced : r.Balanced)
    (delta : r.subscription.delta) (client : r'.client = r.client)
    (accepted : r'.accepted = r.accepted ++ [⟨t.snapshot, r.payload t.snapshot⟩])
    (pushed : r'.pushed = r.pushed.insertAll (sums (r.selected t.snapshot)))
    (grown : ∀ name v v', r.pushed.lookup name = some v →
      sumOf name (Telemetry.points t.snapshot r.client) = some v' → v ≤ v') : r'.Balanced := by
  have sent (name : String) : sumOf name (r.payload t.snapshot) =
      (sumOf name (r.selected t.snapshot)).map (· - (r.pushed.lookup name).getD 0) := by
    rw [payload, if_pos delta, lookup_map_since]
  have remembered (name : String) : r'.pushed.lookup name =
      (sumOf name (r.selected t.snapshot)).or (r.pushed.lookup name) := by
    rw [pushed, lookup_insertAll (sums_selected r t.snapshot), sumOf]
  constructor
  · intro name
    rw [accepted, values, List.filterMap_append, List.sum_append, ← values, balanced.total,
      remembered]
    cases found : sumOf name (r.selected t.snapshot) with
    | none => simp [sent, found]
    | some total =>
      have least : (r.pushed.lookup name).getD 0 ≤ total := by
        cases base : r.pushed.lookup name with
        | none => exact Nat.zero_le _
        | some v => exact grown name v total base (sumOf_selected found)
      simp only [List.filterMap_cons, sent, found, Option.map_some, List.filterMap_nil,
        List.sum_cons, List.sum_nil, Option.some_or, Option.getD_some]
      omega
  · intro name
    rw [remembered, accepted, client, totals, List.filter_append, List.filterMap_append, ← totals]
    cases found : sumOf name (r.selected t.snapshot) with
    | none => simp [sent, found, balanced.last]
    | some => simp [sent, found, sumOf_selected found]

def Below (r : Reporter) (snapshot : Metrics) : Prop :=
  ∀ name v v', r.pushed.lookup name = some v →
    sumOf name (Telemetry.points snapshot r.client) = some v' → v ≤ v'

theorem Balanced.turn (balanced : r.Balanced)
    (delta : r.subscription.delta) (answered : ∀ taken, t.answer ≠ .lost taken)
    (below : r.Below t.snapshot) (keeps : r.KeepsBase t) : (r.turn t).Balanced := by
  have client := (turn_frame r t).1
  cases turn_does r t answered with
  | nothing accepted pushed =>
    exact ⟨fun name => by rw [accepted, pushed, balanced.total],
      fun name => by rw [accepted, pushed, client, balanced.last]⟩
  | push accepted pushed => exact balanced.push delta client accepted pushed below
  | clear clears accepted pushed =>
    -- Giving up an empty base changes nothing.
    have same : (r.turn t).pushed = r.pushed := pushed.trans (keeps clears).symm
    exact ⟨fun name => by rw [accepted, same, balanced.total],
      fun name => by rw [accepted, same, client, balanced.last]⟩

theorem Below.turn {later : Metrics} (below : r.Below later)
    (answered : ∀ taken, t.answer ≠ .lost taken) (grows : NoLess t.snapshot later) :
    (r.turn t).Below later := by
  intro name v v' found there
  rw [(turn_frame r t).1] at there
  cases turn_does r t answered with
  | nothing accepted pushed => exact below name v v' (pushed ▸ found) there
  | push accepted pushed =>
    rw [pushed, lookup_insertAll (sums_selected r t.snapshot)] at found
    cases now : (sums (r.selected t.snapshot)).lookup name with
    | none => exact below name v v' (by simpa [now] using found) there
    | some =>
      simp only [now, Option.some_or, Option.some.injEq] at found
      exact grows r.client name v v' (found ▸ sumOf_selected now) there
  | clear clears accepted pushed =>
    rw [pushed, AList.lookup_empty] at found
    cases found

theorem balanced_run {turns : List Turn} (balanced : r.Balanced) (delta : r.subscription.delta)
    (deltas : ∀ t ∈ turns, ∀ next, t.next = some next → next.delta)
    (answered : ∀ t ∈ turns, ∀ taken, t.answer ≠ .lost taken)
    (below : ∀ t ∈ turns, r.Below t.snapshot) (grows : (turns.map (·.snapshot)).Pairwise NoLess)
    (keeps : Runs.Along Reporter.turn KeepsBase r turns) :
    (turns.foldl Reporter.turn r).Balanced := by
  induction turns generalizing r with
  | nil => exact balanced
  | cons t turns ih =>
    simp only [List.mem_cons, forall_eq_or_imp] at deltas answered below
    rw [List.map_cons, List.pairwise_cons] at grows
    refine ih (balanced.turn delta answered.1 below.1 keeps.1) ?_ deltas.2 answered.2 ?_ grows.2
      keeps.2
    · rcases (turn_frame r t).2 with same | next
      · rw [same, delta]
      · exact deltas.1 _ next
    · intro later held
      exact (below.2 later held).turn answered.1
        (grows.1 _ (List.mem_map.mpr ⟨later, held, rfl⟩))

/-- In a run in which no base is given up once something was pushed, the values of a counter in
the accepted pushes that hold it add up to the counter at the last of these. -/
theorem deltas_add_up (client : ClientType) (subscription : Subscription) {turns : List Turn}
    (delta : subscription.delta) (deltas : ∀ t ∈ turns, ∀ next, t.next = some next → next.delta)
    (answered : ∀ t ∈ turns, ∀ taken, t.answer ≠ .lost taken)
    (grows : (turns.map (·.snapshot)).Pairwise NoLess)
    (keeps : Runs.Along turn KeepsBase { client, subscription } turns) (name : String) :
    (values name (turns.foldl turn { client, subscription }).accepted).sum =
      (totals client name (turns.foldl turn { client, subscription }).accepted).getLast?.getD 0 := by
  have start : Balanced { client, subscription } := ⟨fun _ => rfl, fun _ => rfl⟩
  have balanced := balanced_run start delta deltas answered
    (fun _ _ name v v' found => by simp at found) grows keeps
  have same : (turns.foldl turn { client, subscription }).client = client := by
    generalize hr : ({ client, subscription } : Reporter) = r
    have is : r.client = client := hr ▸ rfl
    clear * - is
    induction turns generalizing r with
    | nil => exact is
    | cons t turns ih => exact ih _ ((turn_frame r t).1.trans is)
  rw [balanced.total, balanced.last, same]

def sampleMetrics (created : Nat) : Metrics where
  connections := { connectionsCreated := created }

def sampleSubscription : Subscription := ⟨1, true, 1024, ["*"]⟩

theorem sampleMetrics_noLess {n m : Nat} (le : n ≤ m) :
    NoLess (sampleMetrics n) (sampleMetrics m) := by
  refine noLess_of_scalars ?_
  simp [Metrics.scalars, sampleMetrics, Scalar.Grows, le]

def sampleTurns : List Turn :=
  [{ snapshot := sampleMetrics 5, answer := .code .none },
    { snapshot := sampleMetrics 6, answer := .code .throttlingQuotaExceeded },
    { snapshot := sampleMetrics 7, answer := .code .none }]

theorem sampleTurns_add_up :
    (values (metricName .producer "connection.creation.total") (sampleTurns.foldl turn
        { client := .producer, subscription := sampleSubscription }).accepted).sum =
      (totals .producer (metricName .producer "connection.creation.total") (sampleTurns.foldl turn
        { client := .producer, subscription := sampleSubscription }).accepted).getLast?.getD 0 := by
  refine deltas_add_up .producer sampleSubscription rfl ?_ ?_ ?_ ?_ _
  · simp [sampleTurns]
  · simp [sampleTurns]
  · simp [sampleTurns, sampleMetrics_noLess]
  · refine ⟨?_, ?_, ?_, trivial⟩
    all_goals exact fun clears => absurd clears.2.2.1 (by decide +kernel)

def resubscribingTurns : List Turn :=
  [{ snapshot := sampleMetrics 5, answer := .code .none },
    { snapshot := sampleMetrics 6, answer := .code .unknownSubscriptionId,
      next := some { sampleSubscription with subscriptionId := 2 } },
    { snapshot := sampleMetrics 7, answer := .code .none }]

/-- The third push sends the whole counter again. -/
theorem resubscription_counts_twice :
    values (metricName .producer "connection.creation.total") (resubscribingTurns.foldl turn
        { client := .producer, subscription := sampleSubscription }).accepted = [5, 7] ∧
      totals .producer (metricName .producer "connection.creation.total") (resubscribingTurns.foldl turn
        { client := .producer, subscription := sampleSubscription }).accepted = [5, 7] := by
  decide +kernel

end Reporter

end Krafka.Telemetry
