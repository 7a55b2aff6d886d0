import Krafka.Library.Runs
import Krafka.Network.Pool

/-! Whose dial answers whom. The pool knows a dial in progress by its key alone, so a dial that
outlives `close_all` can meet the entry of a newer one. Where it does not, the entries are exactly
the dials of the current generation, and the three things the pool promises follow. -/

namespace Krafka.Network

open List Runs ConnectionPool ConnectionPool

/-- A call waits once, and is answered by a dial of the key and generation it waits in, or by the
`close_all` that ends the generation. -/
def Ruled (before : List Event) : Event → Prop
  | .waits call _ _ => ∀ key generation, .waits call key generation ∉ before
  | .answered call (.dial dial) result =>
    .waits call dial.key dial.generation ∈ before ∧ .started dial ∈ before ∧
      .ended dial result ∈ before
  | .answered call (.closeAll generation) result =>
    ∃ key, .waits call key generation ∈ before ∧ result = .error (poolClosedError key.1)
  | _ => True

def Event.Silent : Event → Prop
  | .waits .. | .answered .. => False
  | _ => True

/-- A dial comes back in its own generation, or finds that nobody dials its key. -/
def Timely (p : ConnectionPool) : Input → Prop
  | .finish _ serial _ _ => ∀ dial ∈ p.running, dial.serial = serial →
    dial.generation = p.state.generation ∨ p.state.dialing.lookup dial.key = none
  | _ => True

instance (p : ConnectionPool) : (input : Input) → Decidable (Timely p input)
  | .finish _ serial _ _ => inferInstanceAs (Decidable (∀ dial ∈ p.running, dial.serial = serial →
    dial.generation = p.state.generation ∨ p.state.dialing.lookup dial.key = none))
  | .get .. | .fallBack .. | .register .. | .abandon _ | .evictIdle .. | .closeAll | .die _
  | .expire _ => .isTrue trivial

structure Coalesced (cap : Option Nat) (p : ConnectionPool) : Prop where
  ruled : Throughout Ruled p.trace
  keys : p.currentKeys.Perm p.state.dialing.keys
  generations : ∀ dial ∈ p.running, dial.generation ≤ p.state.generation
  started : ∀ dial ∈ p.running, .started dial ∈ p.trace
  calls : ∀ call key generation, .waits call key generation ∈ p.trace → call < p.calls
  waiting : ∀ key waiters, p.state.dialing.lookup key = some waiters →
    ∀ call ∈ waiters, .waits call key p.state.generation ∈ p.trace
  configured : p.maxTotalConnections = cap
  capped : ∀ limit, cap = some limit → p.live + p.state.dialing.keys.length ≤ limit

section Steps

variable {cap : Option Nat} {p p' : ConnectionPool}

theorem live_le (sub : p'.state.byKey.entries.Sublist p.state.byKey.entries)
    (dead : p.dead ⊆ p'.dead) : p'.live ≤ p.live := by
  have fewer : (p.state.byKey.entries.filter fun e => p'.isAlive e.2).Sublist
      (p.state.byKey.entries.filter fun e => p.isAlive e.2) := by
    refine monotone_filter_right _ fun e alive => ?_
    simp only [isAlive, decide_eq_true_eq] at alive ⊢
    exact fun gone => alive (dead gone)
  exact ((sub.filter _).trans fewer).length_le

theorem Coalesced.quiet (c : Coalesced cap p) (events : List Event)
    (trace : p'.trace = p.trace ++ events) (silent : ∀ event ∈ events, event.Silent)
    (dialing : p'.state.dialing = p.state.dialing)
    (generation : p'.state.generation = p.state.generation) (running : p'.running = p.running)
    (configured : p'.maxTotalConnections = p.maxTotalConnections) (live : p'.live ≤ p.live)
    (calls : p.calls ≤ p'.calls) : Coalesced cap p' where
  ruled := by
    rw [trace]
    refine throughout_append.mpr ⟨c.ruled, throughout_of_forall fun event listed before => ?_⟩
    have quiet := silent event listed
    cases event with
    | waits | answered => exact quiet.elim
    | started | ended | returned | closeWhenIdle | closeNow => trivial
  keys := by
    rw [dialing, currentKeys, running, generation]
    exact c.keys
  generations := by
    rw [running, generation]
    exact c.generations
  started dial there := by
    rw [trace]
    exact mem_append_left _ (c.started dial (running ▸ there))
  calls call key g there := by
    rw [trace] at there
    rcases mem_append.mp there with old | new
    · exact (c.calls call key g old).trans_le calls
    · exact (silent _ new).elim
  waiting key waiters there call waits := by
    rw [trace, generation]
    exact mem_append_left _ (c.waiting key waiters (dialing ▸ there) call waits)
  configured := configured.trans c.configured
  capped limit capped := by
    have before := c.capped limit capped
    rw [dialing]
    omega

theorem Coalesced.returns (c : Coalesced cap p) (result : Result BrokerConnection) :
    Coalesced cap (p.returns result) :=
  c.quiet [.returned p.calls result] rfl (by simp [Event.Silent]) rfl rfl rfl rfl (Nat.le_refl _)
    (Nat.le_succ _)

theorem Coalesced.removeStale (c : Coalesced cap p) (key : PoolKey) : Coalesced cap (p.removeStale key) := by
  unfold ConnectionPool.removeStale
  split
  · exact c
  · rename_i stale found
    dsimp only
    have fewer : (p.state.byKey.erase key).entries.Sublist p.state.byKey.entries :=
      kerase_sublist ..
    split
    · exact c.quiet [.closeWhenIdle stale] rfl (by simp [Event.Silent]) rfl rfl rfl rfl
        (live_le fewer (List.Subset.refl _)) (Nat.le_refl _)
    · exact c.quiet [] (append_nil _).symm (by simp) rfl rfl rfl rfl
        (live_le fewer (List.Subset.refl _)) (Nat.le_refl _)

theorem Coalesced.fresh (c : Coalesced cap p) (key : PoolKey) (generation : Nat) :
    .waits p.calls key generation ∉ p.trace :=
  fun there => Nat.lt_irrefl _ (c.calls _ _ _ there)

variable {key : PoolKey}

theorem mem_dialing (dialing : (p.state.dialing.lookup key).isSome) :
    key ∈ p.state.dialing.keys := by
  rw [← AList.mem_keys, ← AList.lookup_isSome]
  exact dialing

theorem notMem_dialing (absent : p.state.dialing.lookup key = none) :
    key ∉ p.state.dialing.keys := by
  rw [← AList.mem_keys]
  exact AList.lookup_eq_none.mp absent

theorem Coalesced.waiting_waits (c : Coalesced cap p) (key : PoolKey) {other : PoolKey}
    {waiters : List Nat} (there : (p.waits key).state.dialing.lookup other = some waiters)
    (call : Nat) (waits : call ∈ waiters) :
    .waits call other p.state.generation ∈ (p.waits key).trace := by
  by_cases here : other = key
  · subst here
    have entry : waiters = (p.state.dialing.lookup other).getD [] ++ [p.calls] := by
      simpa [ConnectionPool.waits] using there.symm
    rw [entry, mem_append, mem_singleton] at waits
    rcases waits with old | rfl
    · cases found : p.state.dialing.lookup other with
      | none => simp [found] at old
      | some before =>
        rw [found] at old
        exact mem_append_left _ (c.waiting other before found call old)
    · exact mem_append_right _ (mem_singleton_self _)
  · have before : p.state.dialing.lookup other = some waiters := by
      simpa [ConnectionPool.waits, AList.lookup_insert_ne here] using there
    exact mem_append_left _ (c.waiting other waiters before call waits)

theorem Coalesced.calls_waits (c : Coalesced cap p) (key : PoolKey) (call : Nat) (other : PoolKey)
    (generation : Nat) (there : .waits call other generation ∈ (p.waits key).trace) :
    call < p.calls + 1 := by
  rcases mem_append.mp there with old | new
  · exact (c.calls call other generation old).trans (Nat.lt_succ_self _)
  · cases mem_singleton.mp new
    exact Nat.lt_succ_self _

theorem Coalesced.waits (c : Coalesced cap p)
    (dialing : (p.state.dialing.lookup key).isSome) : Coalesced cap (p.waits key) where
  ruled := throughout_concat.mpr ⟨c.ruled, c.fresh⟩
  keys := c.keys.trans (AList.keys_insert_perm (mem_dialing dialing) _).symm
  generations := c.generations
  started dial there := mem_append_left _ (c.started dial there)
  calls := c.calls_waits key
  waiting _ _ := c.waiting_waits key
  configured := c.configured
  capped limit capped := by
    have same := (AList.keys_insert_perm (mem_dialing dialing)
      ((p.state.dialing.lookup key).getD [] ++ [p.calls])).length_eq
    have before := c.capped limit capped
    show p.live + (p.state.dialing.insert key _).keys.length ≤ limit
    rw [same]
    exact before

theorem Coalesced.dial (c : Coalesced cap p) (absent : p.state.dialing.lookup key = none)
    (room : ∀ limit, cap = some limit → p.countedConnections < limit) :
    Coalesced cap (p.dial key) where
  ruled := throughout_concat.mpr ⟨throughout_concat.mpr ⟨c.ruled, c.fresh⟩, trivial⟩
  keys := by
    have current : (p.dial key).currentKeys = p.currentKeys ++ [key] := by
      simp [currentKeys, ConnectionPool.dial, ConnectionPool.waits]
    have entry : (p.dial key).state.dialing.keys = key :: p.state.dialing.keys :=
      AList.keys_insert_of_notMem (notMem_dialing absent) _
    rw [current, entry]
    exact (perm_append_singleton key _).trans (c.keys.cons key)
  generations dial there := by
    rcases mem_append.mp there with old | new
    · exact c.generations dial old
    · rw [mem_singleton.mp new]
      exact Nat.le_refl _
  started dial there := by
    rcases mem_append.mp there with old | new
    · exact mem_append_left _ (mem_append_left _ (c.started dial old))
    · rw [mem_singleton.mp new]
      exact mem_append_right _ (mem_singleton_self _)
  calls call other generation there := by
    rcases mem_append.mp there with old | new
    · exact c.calls_waits key call other generation old
    · cases mem_singleton.mp new
  waiting other waiters there call waits :=
    mem_append_left _ (c.waiting_waits key there call waits)
  configured := c.configured
  capped limit capped := by
    have entry : (p.dial key).state.dialing.keys = key :: p.state.dialing.keys :=
      AList.keys_insert_of_notMem (notMem_dialing absent) _
    have free := room limit capped
    have length : p.state.dialing.entries.length = p.state.dialing.keys.length :=
      (length_map _).symm
    rw [entry, length_cons]
    show p.live + _ ≤ limit
    rw [countedConnections, length] at free
    omega

theorem dialing_removeStale (p : ConnectionPool) (key : PoolKey) :
    (p.removeStale key).state.dialing = p.state.dialing := by
  unfold ConnectionPool.removeStale
  split
  · rfl
  · dsimp only
    split <;> rfl

theorem Coalesced.get (c : Coalesced cap p) (now : Instant) (key : PoolKey) :
    Coalesced cap (p.get now key) := by
  unfold ConnectionPool.get
  split
  · exact c.returns _
  · split
    · rename_i dialing
      exact c.waits dialing
    · rename_i idle
      split
      · exact c.returns _
      · have stale := c.removeStale key
        have absent : (p.removeStale key).state.dialing.lookup key = none := by
          rw [dialing_removeStale]
          simpa using idle
        dsimp only
        split
        · split
          · exact stale.quiet [] (append_nil _).symm (by simp) rfl rfl rfl rfl (Nat.le_refl _)
              (Nat.le_succ _)
          · exact stale.returns _
        · rename_i free
          refine stale.dial absent fun limit capped => ?_
          rw [stale.configured, capped] at free
          simpa [Option.filter] using free

theorem Ruled.grow {before : List Event} {call : Nat} {answerer : Answerer}
    {result : Result BrokerConnection}
    (ruled : Ruled before (.answered call answerer result)) (more : List Event) :
    Ruled (before ++ more) (.answered call answerer result) := by
  cases answerer with
  | dial =>
    obtain ⟨waits, started, ended⟩ := ruled
    exact ⟨mem_append_left _ waits, mem_append_left _ started,
      mem_append_left _ ended⟩
  | closeAll =>
    obtain ⟨key, waits, same⟩ := ruled
    exact ⟨key, mem_append_left _ waits, same⟩

theorem Coalesced.answer (c : Coalesced cap p) (waiters : List Nat) (answerer : Answerer)
    (result : Result BrokerConnection)
    (told : ∀ call ∈ waiters, Ruled p.trace (.answered call answerer result)) :
    Coalesced cap (p.answer waiters answerer result) where
  ruled := by
    refine throughout_append.mpr ⟨c.ruled, throughout_of_forall fun event listed before => ?_⟩
    obtain ⟨call, there, rfl⟩ := mem_map.mp listed
    exact (told call (mem_filter.mp there).1).grow before
  keys := c.keys
  generations := c.generations
  started dial there := mem_append_left _ (c.started dial there)
  calls call key generation there := by
    rcases mem_append.mp there with old | new
    · exact c.calls call key generation old
    · simp at new
  waiting key waiters there call waits :=
    mem_append_left _ (c.waiting key waiters there call waits)
  configured := c.configured
  capped := c.capped

section Finish

variable {dial : Dial}

theorem currentKeys_erase (running : dial ∈ p.running) :
    p.currentKeys.Perm ((if dial.generation = p.state.generation then [dial.key] else []) ++
      ((p.running.erase dial).filter (·.generation = p.state.generation)).map (·.key)) := by
  have perm := ((perm_cons_erase running).filter
    (fun d => decide (d.generation = p.state.generation))).map (·.key)
  refine perm.trans ?_
  by_cases current : dial.generation = p.state.generation <;> simp [current]

theorem Coalesced.mem_of_current (c : Coalesced cap p) (running : dial ∈ p.running)
    (current : dial.generation = p.state.generation) : dial.key ∈ p.state.dialing.keys := by
  refine c.keys.subset (mem_map.mpr ⟨dial, mem_filter.mpr ⟨running, ?_⟩, rfl⟩)
  simpa using current

theorem Coalesced.takeOut (c : Coalesced cap p) (running : dial ∈ p.running)
    (timely : dial.generation = p.state.generation ∨ p.state.dialing.lookup dial.key = none) :
    Coalesced cap (p.takeOut dial) where
  ruled := c.ruled
  keys := by
    have current := currentKeys_erase running
    show (((p.running.erase dial).filter (·.generation = p.state.generation)).map (·.key)).Perm
      (p.state.dialing.erase dial.key).keys
    by_cases same : dial.generation = p.state.generation
    · rw [if_pos same] at current
      have entries := AList.keys_perm_cons_erase (c.mem_of_current running same)
      exact ((current.symm.trans c.keys).trans entries).cons_inv
    · have absent := notMem_dialing (timely.resolve_left same)
      rw [if_neg same] at current
      rw [AList.erase_of_notMem absent]
      exact current.symm.trans c.keys
  generations other there := c.generations other (mem_of_mem_erase there)
  started other there := c.started other (mem_of_mem_erase there)
  calls := c.calls
  waiting key waiters there := by
    by_cases same : key = dial.key
    · subst same
      rw [show (p.takeOut dial).state.dialing.lookup dial.key = none from AList.lookup_erase ..]
        at there
      cases there
    · rw [show (p.takeOut dial).state.dialing.lookup key = p.state.dialing.lookup key from
        AList.lookup_erase_ne same] at there
      exact c.waiting key waiters there
  configured := c.configured
  capped limit capped := by
    have fewer : (p.state.dialing.erase dial.key).keys.length ≤ p.state.dialing.keys.length :=
      ((kerase_sublist dial.key _).map Sigma.fst).length_le
    exact (Nat.add_le_add_left fewer _).trans (c.capped limit capped)

theorem Coalesced.room (c : Coalesced cap p) (running : dial ∈ p.running)
    (current : dial.generation = p.state.generation) (limit : Nat) (capped : cap = some limit) :
    (p.takeOut dial).live + 1 + (p.takeOut dial).state.dialing.keys.length ≤ limit := by
  have entries := (AList.keys_perm_cons_erase (c.mem_of_current running current)).length_eq
  have before := c.capped limit capped
  rw [length_cons] at entries
  show p.live + 1 + (p.state.dialing.erase dial.key).keys.length ≤ limit
  omega

theorem live_insert (p : ConnectionPool) (key : PoolKey) (conn : BrokerConnection) :
    ((p.state.byKey.insert key conn).entries.filter fun e => p.isAlive e.2).length ≤ p.live + 1 := by
  rw [AList.entries_insert]
  have rest : ((p.state.byKey.entries.kerase key).filter fun e => p.isAlive e.2).length ≤ p.live :=
    ((kerase_sublist key _).filter _).length_le
  rw [filter_cons]
  split
  · exact Nat.succ_le_succ rest
  · exact rest.trans (Nat.le_succ _)

theorem Coalesced.settle (c : Coalesced cap p) (now : Instant) (dial : Dial) (outcome : DialOutcome)
    (backoff : Nat → Duration)
    (room : dial.generation = p.state.generation → ∀ limit, cap = some limit →
      p.live + 1 + p.state.dialing.keys.length ≤ limit) :
    Coalesced cap (p.settle now dial outcome backoff).1 := by
  cases outcome with
  | failed | timedOut =>
    exact c.quiet [] (append_nil _).symm (by simp) rfl rfl rfl rfl (Nat.le_refl _)
      (Nat.le_refl _)
  | connected =>
    simp only [ConnectionPool.settle]
    split
    · exact c.quiet [.closeWhenIdle ⟨p.connections, dial.key.1⟩] rfl (by simp [Event.Silent]) rfl
        rfl rfl rfl (Nat.le_refl _) (Nat.le_refl _)
    · rename_i current
      refine ⟨c.ruled, c.keys, c.generations, c.started, c.calls, c.waiting, c.configured,
        fun limit capped => ?_⟩
      have free := room (not_not.mp current).symm limit capped
      have live := live_insert p dial.key ⟨p.connections, dial.key.1⟩
      refine le_trans ?_ free
      exact Nat.add_le_add_right live _

theorem trace_settle (p : ConnectionPool) (now : Instant) (dial : Dial) (outcome : DialOutcome)
    (backoff : Nat → Duration) : p.trace <+: (p.settle now dial outcome backoff).1.trace := by
  cases outcome with
  | failed | timedOut => exact prefix_refl _
  | connected =>
    simp only [ConnectionPool.settle]
    split
    · exact prefix_append _ _
    · exact prefix_refl _

theorem Coalesced.finish (c : Coalesced cap p) (now : Instant) (serial : Nat) (outcome : DialOutcome)
    (backoff : Nat → Duration) (timely : Timely p (.finish now serial outcome backoff)) :
    Coalesced cap (p.finish now serial outcome backoff) := by
  unfold ConnectionPool.finish
  split
  · exact c
  · rename_i dial found
    have running := mem_of_find?_eq_some found
    have own := timely dial running (by simpa using List.find?_some found)
    -- The calls in the entry, if there is one, wait in the dial's own generation.
    have waits : ∀ call ∈ (p.state.dialing.lookup dial.key).getD [],
        .waits call dial.key dial.generation ∈ p.trace := by
      intro call there
      cases entry : p.state.dialing.lookup dial.key with
      | none => simp [entry] at there
      | some waiters =>
        rw [entry] at there
        have current := own.resolve_right (by simp [entry])
        exact current ▸ c.waiting dial.key waiters entry call there
    have next := (c.takeOut running own).settle now dial outcome backoff (c.room running)
    have kept := trace_settle (p.takeOut dial) now dial outcome backoff
    dsimp only
    generalize (p.takeOut dial).settle now dial outcome backoff = settled at next kept ⊢
    have ended : Coalesced cap (settled.1.emit [.ended dial settled.2]) :=
      next.quiet [.ended dial settled.2] rfl (by simp [Event.Silent]) rfl rfl rfl rfl (Nat.le_refl _)
        (Nat.le_refl _)
    refine ended.answer _ (.dial dial) settled.2 fun call there => ⟨?_, ?_, ?_⟩
    · exact mem_append_left _ (kept.subset (waits call there))
    · exact mem_append_left _ (kept.subset (c.started dial running))
    · exact mem_append_right _ (mem_singleton_self _)

end Finish

theorem Coalesced.evictIdle (c : Coalesced cap p) (byId byKey : BrokerConnection → Duration) :
    Coalesced cap (p.evictIdle byId byKey) := by
  unfold ConnectionPool.evictIdle
  split
  · exact c
  · refine c.quiet _ rfl ?_ rfl rfl rfl rfl
      (live_le filter_sublist (List.Subset.refl _)) (Nat.le_refl _)
    intro event listed
    obtain ⟨conn, -, rfl⟩ := mem_map.mp listed
    trivial

theorem Coalesced.answerEach (c : Coalesced cap p) {entries : List (Sigma fun _ : PoolKey => List Nat)}
    {generation : Nat} (waits : ∀ e ∈ entries, ∀ call ∈ e.2, .waits call e.1 generation ∈ p.trace) :
    Coalesced cap (entries.foldl (fun p e =>
      p.answer e.2 (.closeAll generation) (.error (poolClosedError e.1.1))) p) := by
  induction entries generalizing p with
  | nil => exact c
  | cons e entries ih =>
    refine ih (c.answer _ _ _ fun call there => ⟨e.1, ?_, rfl⟩) fun e' listed call there => ?_
    · exact waits e (mem_cons_self ..) call there
    · exact mem_append_left _ (waits e' (mem_cons_of_mem _ listed) call there)

theorem Coalesced.closeAll (c : Coalesced cap p) : Coalesced cap p.closeAll := by
  have drained : Coalesced cap { p with
      state := { p.state with
        generation := p.state.generation + 1
        reconnect := ∅
        byId := ∅
        byKey := ∅
        dialing := ∅ } } := by
    refine ⟨c.ruled, ?_, fun dial there => ?_, c.started, c.calls, nofun, c.configured,
      fun limit _ => Nat.zero_le _⟩
    · have none : (p.running.filter (·.generation = p.state.generation + 1)) = [] := by
        refine filter_eq_nil_iff.mpr fun dial there => ?_
        have before := c.generations dial there
        simp only [decide_eq_true_eq]
        omega
      rw [currentKeys, none]
      exact List.Perm.nil
    · exact (c.generations dial there).trans (Nat.le_succ _)
  have told := drained.answerEach fun e listed call there =>
    c.waiting e.1 e.2 (mem_dlookup p.state.dialing.nodupKeys listed) call there
  refine told.quiet _ rfl ?_ rfl rfl rfl rfl (Nat.le_refl _) (Nat.le_refl _)
  intro event listed
  obtain ⟨conn, -, rfl⟩ := mem_map.mp listed
  trivial

theorem Coalesced.step (c : Coalesced cap p) {input : Input} (timely : Timely p input) :
    Coalesced cap (p.step input) := by
  have aside {p' : ConnectionPool} (trace : p'.trace = p.trace)
      (dialing : p'.state.dialing = p.state.dialing)
      (generation : p'.state.generation = p.state.generation) (running : p'.running = p.running)
      (configured : p'.maxTotalConnections = p.maxTotalConnections) (live : p'.live ≤ p.live)
      (calls : p'.calls = p.calls) : Coalesced cap p' :=
    c.quiet [] (by simpa using trace) (by simp) dialing generation running configured live calls.ge
  cases input with
  | get now address purpose => exact c.get now (address, purpose)
  | fallBack now =>
    unfold ConnectionPool.step
    dsimp only
    split
    · exact c
    · refine Coalesced.get ?_ now _
      exact aside rfl rfl rfl rfl rfl (Nat.le_refl _) rfl
  | register =>
    unfold ConnectionPool.step
    dsimp only
    split
    · exact c
    · exact aside rfl rfl rfl rfl rfl (Nat.le_refl _) rfl
  | abandon | expire => exact aside rfl rfl rfl rfl rfl (Nat.le_refl _) rfl
  | finish now serial outcome backoff => exact c.finish now serial outcome backoff timely
  | evictIdle byId byKey => exact c.evictIdle byId byKey
  | closeAll => exact c.closeAll
  | die conn =>
    refine aside rfl rfl rfl rfl rfl (live_le (List.Sublist.refl _) ?_) rfl
    exact subset_cons_self conn p.dead

end Steps

/-- In every run in which a dial comes back in its own generation or finds that nobody dials its
key, a call is answered by a dial of the generation it waits in or by the `close_all` that ends
it, at most one dial per key of the current generation runs, and the cap holds. -/
theorem dials_serve_their_generation (connectTimeout : Duration) (maxIdle : Option Duration)
    (cap : Option Nat) (inputs : List Input)
    (timely : Along step Timely (new connectTimeout maxIdle cap) inputs) :
    Throughout Ruled ((new connectTimeout maxIdle cap).run inputs).trace ∧
      ((new connectTimeout maxIdle cap).run inputs).currentKeys.Nodup ∧
      ∀ limit, cap = some limit →
        ((new connectTimeout maxIdle cap).run inputs).live +
          ((new connectTimeout maxIdle cap).run inputs).currentKeys.length ≤
            limit := by
  have start : Coalesced cap (new connectTimeout maxIdle cap) :=
    ⟨throughout_nil _, List.Perm.nil, nofun, nofun, nofun, nofun, rfl, fun limit _ => Nat.zero_le _⟩
  have c : Coalesced cap ((new connectTimeout maxIdle cap).run inputs) :=
    timely.invariant (Coalesced cap) (fun p input meets before => before.step meets) start
  refine ⟨c.ruled, c.keys.nodup_iff.mpr (AList.keys_nodup _), fun limit capped => ?_⟩
  rw [c.keys.length_eq]
  exact c.capped limit capped

/-! A dial that outlives `close_all` -/

def samplePool : ConnectionPool := new 30000000000 none (some 1)

def sampleGet : Input := .get 0 "a" .data

def sampleDone (serial : Nat) : Input := .finish 0 serial .connected fun _ => 0

def lateDial : List Input := [sampleGet, .closeAll, sampleGet, sampleDone 0, sampleGet]

def earlyDial : List Input := [sampleGet, .closeAll, sampleDone 0, sampleGet, sampleDone 1]

theorem samplePool_serves :
    Along step Timely samplePool earlyDial ∧ (samplePool.run earlyDial).live = 1 ∧
      Throughout Ruled (samplePool.run earlyDial).trace :=
  ⟨by decide +kernel, by decide +kernel,
    (dials_serve_their_generation 30000000000 none (some 1) earlyDial (by decide +kernel)).1⟩

/-- The second call is told the outcome of the first dial, and its own dial runs on beside a
third one of the same key, one more than the cap allows. -/
theorem late_dial_answers_a_newer_call :
    ¬ Throughout Ruled (samplePool.run lateDial).trace ∧
      ¬ (samplePool.run lateDial).currentKeys.Nodup ∧
      1 < (samplePool.run lateDial).live + (samplePool.run lateDial).currentKeys.length := by
  refine ⟨fun ruled => ?_, by decide +kernel, by decide +kernel⟩
  have trace : (samplePool.run lateDial).trace =
      [.waits 0 ("a", .data) 0, .started ⟨0, ("a", .data), 0⟩,
        .answered 0 (.closeAll 0) (.error (poolClosedError "a")), .waits 1 ("a", .data) 1,
        .started ⟨1, ("a", .data), 1⟩, .closeWhenIdle ⟨0, "a"⟩,
        .ended ⟨0, ("a", .data), 0⟩ (.error (poolClosedError "a"))] ++
      .answered 1 (.dial ⟨0, ("a", .data), 0⟩) (.error (poolClosedError "a")) ::
        [.waits 2 ("a", .data) 1, .started ⟨2, ("a", .data), 1⟩] := by
    rfl
  have told := ruled _ _ _ trace
  simp [Ruled] at told

end Krafka.Network
