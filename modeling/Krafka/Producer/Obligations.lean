import Krafka.Producer.HandOff

/-! Who holds a record's context. Each context that `on_send` filled is held once, by the call's
obligation, by a rejection on its way back or by the record's waiter, or its callback was called
once with it. -/

namespace Krafka.Producer

open List

inductive Holder where
  | obligation | rejection | waiter | acknowledged | abandoned
  deriving DecidableEq

structure Account where
  call : Nat
  context : RecordContext
  holder : Holder
  deriving DecidableEq

def Account.label (account : Account) : Nat × RecordContext := (account.call, account.context)

def Send.accounts (send : Send) (call : Nat) : List Account :=
  send.obligation.context.toList.map (⟨call, ·, .obligation⟩)

def SendStage.accounts (call : Nat) : SendStage → List Account
  | .route send _ | .register send _ | .memory send _ | .reserved send _ _ => send.accounts call
  | .hand send waiter _ => send.accounts call ++ [⟨call, waiter.context, .waiter⟩]
  | .rejected send _ rejection => send.accounts call ++ [⟨call, rejection.context, .rejection⟩]
  | _ => []

def Fate.account (call : Nat) : Fate → Account
  | .acknowledged ack => ⟨call, ack.context, .acknowledged⟩
  | .abandoned context => ⟨call, context, .abandoned⟩

theorem SendStage.holder_accounts {call : Nat} {stage : SendStage} {account : Account}
    (member : account ∈ stage.accounts call) : account.holder ≠ .abandoned := by
  have obligation {send : Send} (here : account ∈ send.accounts call) :
      account.holder ≠ .abandoned := by
    obtain ⟨context, -, rfl⟩ := mem_map.mp here
    exact fun same => nomatch same
  cases stage with
  | route | register | memory | reserved => exact obligation member
  | hand | rejected =>
    rcases mem_append.mp member with here | last
    · exact obligation here
    · rw [mem_singleton.mp last]
      exact fun same => nomatch same
  | _ => cases member

namespace Sends

variable (s : Sends)

def sent (holder : Holder) (entry : Nat × Parcel) : Account := ⟨entry.1, entry.2.context, holder⟩

/-- Every context that the calls, the channel and the engine hold, and every one that was spent. -/
def accounts : List Account :=
  s.calls.zipIdx.flatMap (fun entry => entry.1.accounts entry.2) ++
    s.told.map (fun entry => entry.2.account entry.1) ++
    (s.handed.drop s.engine.arrivals).map (sent .waiter) ++
    s.engine.held.filterMap (fun tag => s.handed[tag]?.map (sent .waiter)) ++
    (answeredTags s.engine.trace).filterMap fun tag => s.handed[tag]?.map (sent .acknowledged)

def labels : List (Nat × RecordContext) :=
  s.calls.zipIdx.flatMap (fun entry => entry.1.contexts.map (entry.2, ·)) ++
    s.told.map (fun entry => (entry.1, entry.2.context)) ++
    s.handed.map (fun entry => (entry.1, entry.2.context))

structure Balanced : Prop where
  labels : s.labels.Perm (s.opened.map fun call => (call, contextOf call))
  once : s.opened.Nodup
  begun : ∀ call ∈ s.opened, ∃ stage : SendStage,
    s.calls[call]? = some stage ∧ stage.fresh = false

variable {s}

variable {unwinds : Bool}

theorem labels_settle {call : Nat} {stage : SendStage} {polled : Polled}
    (there : s.calls[call]? = some stage) (follows : polled.Follows stage call s.free unwinds) :
    (s.settle call polled).labels.Perm
      (s.labels ++ if polled.opened then [(call, contextOf call)] else []) := by
  obtain ⟨front, back, before, after⟩ := Lists.exists_flatMap_zipIdx_set
    (fun entry : SendStage × Nat => entry.1.contexts.map (entry.2, ·)) there 0
  have moved := congrArg (List.map fun context => (call, context)) follows.contexts
  simp only [Polled.contexts, map_append, map_map, Function.comp_def] at moved
  refine perm_iff_count.mpr fun label => ?_
  have counted := congrArg (List.count label) moved
  have opening : (if polled.opened then [contextOf call] else []).map (fun c => (call, c)) =
      if polled.opened then [(call, contextOf call)] else [] := by split_ifs <;> rfl
  rw [opening] at counted
  simp only [labels, Sends.settle, before, after, Nat.zero_add, map_append, map_map,
    Function.comp_def, count_append] at counted ⊢
  omega

theorem Balanced.settle (balanced : s.Balanced) {call : Nat} {stage : SendStage} {polled : Polled}
    (there : s.calls[call]? = some stage)
    (follows : polled.Follows stage call s.free unwinds) : (s.settle call polled).Balanced := by
  have inside := (List.getElem?_eq_some_iff.mp there).1
  have unopened (fresh : stage.fresh) : call ∉ s.opened := by
    intro known
    obtain ⟨other, found, begun⟩ := balanced.begun call known
    cases there.symm.trans found
    cases begun.symm.trans fresh
  refine ⟨(labels_settle there follows).trans ?_, ?_, fun other known => ?_⟩
  · simp only [Sends.settle]
    split_ifs with opened
    · rw [map_append]
      exact balanced.labels.append_right _
    · rw [append_nil]
      exact balanced.labels
  · simp only [Sends.settle]
    split_ifs with opened
    · rw [← concat_eq_append]
      exact balanced.once.concat (unopened (follows.begins opened))
    · exact balanced.once
  · by_cases same : other = call
    · subst same
      refine ⟨polled.stage, List.getElem?_set_self inside, ?_⟩
      cases fresh : polled.stage.fresh with
      | false => rfl
      | true =>
        obtain ⟨earlier, quiet⟩ := follows.begun fresh
        simp only [Sends.settle, quiet] at known
        exact absurd known (unopened earlier)
    · have before : other ∈ s.opened := by
        simp only [Sends.settle] at known
        split_ifs at known
        · exact (mem_append.mp known).resolve_right (by simpa using same)
        · exact known
      obtain ⟨stage, found, begun⟩ := balanced.begun other before
      exact ⟨stage, (List.getElem?_set_ne (Ne.symm same)).trans found, begun⟩

variable {config : EngineConfig}

theorem Balanced.move (linked : s.Linked config) (balanced : s.Balanced)
    {s' : Sends} (move : s.Move unwinds s') : s'.Balanced := by
  cases move with
  | idle => exact balanced
  | call stage fresh =>
    have none : stage.contexts = [] := by cases stage <;> first | rfl | cases fresh
    have same : { s with calls := s.calls ++ [stage] }.labels = s.labels := by
      unfold Sends.labels
      simp [zipIdx_append, none]
    refine ⟨same ▸ balanced.labels, balanced.once, fun call known => ?_⟩
    · obtain ⟨stage, found, begun⟩ := balanced.begun call known
      have inside := (List.getElem?_eq_some_iff.mp found).1
      exact ⟨stage, (List.getElem?_append_left inside).trans found, begun⟩
  | poll answer there =>
    exact balanced.settle there (SendStage.follows_poll (linked.sound _ _ there) s.limits answer)
  | drop panicking there awaits =>
    exact balanced.settle there (SendStage.follows_drop (linked.sound _ _ there) awaits panicking)
  | post | receive | engine => exact ⟨balanced.labels, balanced.once, balanced.begun⟩

theorem run_balanced (config : EngineConfig) (bufferMemory : Nat) (inputs : List SendInput) :
    (run config bufferMemory inputs).Balanced := by
  induction inputs using List.reverseRecOn with
  | nil => exact ⟨.refl _, .nil, nofun⟩
  | append_singleton inputs input ih =>
    rw [run_concat]
    exact ih.move (run_linked config bufferMemory inputs) (move_step _ input)

/-! Accounts -/

theorem label_accounts (call : Nat) (stage : SendStage) :
    (stage.accounts call).map Account.label = stage.contexts.map (call, ·) := by
  cases stage <;> simp [SendStage.accounts, SendStage.contexts, Send.accounts, Account.label]

theorem label_fate (call : Nat) (fate : Fate) :
    (fate.account call).label = (call, fate.context) := by cases fate <;> rfl

theorem accounts_perm (linked : s.Linked config) :
    (s.accounts.map Account.label).Perm s.labels := by
  have label (holder : Holder) (tags : List Nat) :
      (tags.filterMap fun tag => s.handed[tag]?.map (sent holder)).map Account.label =
        (tags.filterMap (s.handed[·]?)).map fun entry => (entry.1, entry.2.context) := by
    rw [map_filterMap, map_filterMap]
    simp only [Option.map_map]
    rfl
  have handed := linked.handed_perm.map fun entry => (entry.1, entry.2.context)
  simp only [accounts, labels, map_append, map_flatMap, map_map, label_accounts,
    Function.comp_def, label_fate, label, append_assoc] at handed ⊢
  refine (List.Perm.refl _).append ((List.Perm.refl _).append (List.Perm.trans ?_ handed))
  exact perm_append_comm_assoc .. |>.trans ((List.Perm.refl _).append perm_append_comm)

theorem label_filter (linked : s.Linked config) (balanced : s.Balanced)
    (call : Nat) : (s.accounts.filter (·.call = call)).map Account.label =
      if call ∈ s.opened then [(call, contextOf call)] else [] := by
  have whole : ((s.accounts.filter (·.call = call)).map Account.label).Perm
      ((s.opened.filter (· = call)).map fun call => (call, contextOf call)) := by
    have picked := ((accounts_perm linked).trans balanced.labels).filter (·.1 = call)
    rw [filter_map, filter_map] at picked
    exact picked
  have own : (s.opened.filter (· = call)).map (fun call => (call, contextOf call)) =
      if call ∈ s.opened then [(call, contextOf call)] else [] := by
    split_ifs with known
    · rw [filter_eq, count_eq_one_of_mem balanced.once known]
      rfl
    · rw [filter_eq, count_eq_zero.mpr known]
      rfl
  rw [own] at whole
  split_ifs at whole ⊢
  · exact perm_singleton.mp whole
  · exact perm_nil.mp whole

theorem Reported.move (linked : s.Linked config) {s' : Sends}
    (move : s.Move false s') (reported : ∀ entry ∈ s.told, entry.2.isReport) :
    ∀ entry ∈ s'.told, entry.2.isReport := by
  have settled {call : Nat} {stage : SendStage} {polled : Polled}
      (follows : polled.Follows stage call s.free) :
      ∀ entry ∈ (s.settle call polled).told, entry.2.isReport := by
    intro entry member
    rcases mem_append.mp member with before | new
    · exact reported entry before
    · obtain ⟨fate, told, rfl⟩ := mem_map.mp new
      exact follows.reported rfl fate told
  cases move with
  | poll answer there =>
    exact settled (SendStage.follows_poll (linked.sound _ _ there) s.limits answer)
  | drop panicking there awaits said =>
    subst said
    exact settled (SendStage.follows_drop (linked.sound _ _ there) awaits false)
  | _ => exact reported

theorem run_reported (config : EngineConfig) (bufferMemory : Nat) (inputs : List SendInput)
    (calm : ∀ input ∈ inputs, input.unwinds = false) :
    ∀ entry ∈ (run config bufferMemory inputs).told, entry.2.isReport := by
  induction inputs using List.reverseRecOn with
  | nil => exact fun _ member => nomatch member
  | append_singleton inputs input ih =>
    rw [run_concat]
    have move := move_step (run config bufferMemory inputs) input
    rw [calm input (by simp)] at move
    exact Reported.move (run_linked config bufferMemory inputs) move
      (ih fun other member => calm other (mem_append_left _ member))

theorem holder_of_reported (reported : ∀ entry ∈ s.told, entry.2.isReport)
    {account : Account} (member : account ∈ s.accounts) : account.holder ≠ .abandoned := by
  have handed {holder : Holder} (other : holder ≠ .abandoned) {tags : List Nat}
      (there : account ∈ tags.filterMap fun tag => s.handed[tag]?.map (sent holder)) :
      account.holder ≠ .abandoned := by
    obtain ⟨tag, -, found⟩ := mem_filterMap.mp there
    obtain ⟨entry, -, rfl⟩ := Option.map_eq_some_iff.mp found
    exact other
  simp only [accounts, mem_append] at member
  rcases member with (((held | told) | posted) | queued) | answered
  · obtain ⟨⟨stage, call⟩, -, here⟩ := mem_flatMap.mp held
    exact SendStage.holder_accounts here
  · obtain ⟨⟨call, fate⟩, entry, rfl⟩ := mem_map.mp told
    have report := reported _ entry
    cases fate with
    | acknowledged => exact fun same => nomatch same
    | abandoned => cases report
  · obtain ⟨entry, -, rfl⟩ := mem_map.mp posted
    exact fun same => nomatch same
  · exact handed (by decide : Holder.waiter ≠ .abandoned) queued
  · exact handed (by decide : Holder.acknowledged ≠ .abandoned) answered

/-- At each moment the context of a call that has called `on_send` is in one place: with its
obligation, a rejection on its way back or the record's waiter, or the callback was called once with
it, or its obligation was dropped while the thread was unwinding. Other calls have none. What was
handed over and has not arrived is what the appends in the channel carry, one waiter each. -/
theorem context_is_accounted_for (config : EngineConfig) (bufferMemory : Nat)
    (inputs : List SendInput) (call : Nat) :
    ((run config bufferMemory inputs).handed.drop
        (run config bufferMemory inputs).engine.arrivals).length =
      (run config bufferMemory inputs).channel.countP Command.isAppend ∧
    (call ∈ (run config bufferMemory inputs).opened →
      ∃ holder, (run config bufferMemory inputs).accounts.filter (·.call = call) =
          [⟨call, contextOf call, holder⟩] ∧
        ((∀ input ∈ inputs, input.unwinds = false) → holder ≠ .abandoned)) ∧
      (call ∉ (run config bufferMemory inputs).opened →
        (run config bufferMemory inputs).accounts.filter (·.call = call) = []) := by
  have linked := run_linked config bufferMemory inputs
  have only := label_filter linked (run_balanced config bufferMemory inputs) call
  refine ⟨?_, fun known => ?_, fun unknown => ?_⟩
  · rw [length_drop, linked.counted, Nat.add_sub_cancel_left]
  · rw [if_pos known, map_eq_singleton_iff] at only
    obtain ⟨account, alone, label⟩ := only
    have member : account ∈ (run config bufferMemory inputs).accounts :=
      (mem_filter.mp (alone ▸ mem_singleton_self account)).1
    obtain ⟨own, context, holder⟩ := account
    obtain rfl : own = call := congrArg Prod.fst label
    obtain rfl : context = contextOf own := congrArg Prod.snd label
    exact ⟨holder, alone, fun calm =>
      holder_of_reported (run_reported config bufferMemory inputs calm) member⟩
  · rw [if_neg unknown, map_eq_nil_iff] at only
    exact only

def sampleSend : List SendInput :=
  [.call false { topic := "t", partition := some 0 },
    .poll 0 (.hook { topic := "t", partition := some 0 } none), .poll 0 (.partitions (.ok 1) 0),
    .poll 0 (.done (.ok ())), .poll 0 (.memory .granted), .poll 0 (.admission (.ok 0) (.ok ()) 0),
    .poll 0 (.sent true), .receive 0, .engine sampleDrain,
    .engine (sampleDone 0 (.answer .none 5 (-1) 0))]

theorem sample_is_accounted_for :
    (run (sampleConfig .plain) 1000 sampleSend).accounts = [⟨0, contextOf 0, .acknowledged⟩] ∧
      ∃ holder, (run (sampleConfig .plain) 1000 sampleSend).accounts.filter (·.call = 0) =
        [⟨0, contextOf 0, holder⟩] ∧
      ((∀ input ∈ sampleSend, input.unwinds = false) → holder ≠ .abandoned) :=
  ⟨by decide +kernel,
    (context_is_accounted_for (sampleConfig .plain) 1000 sampleSend 0).2.1 (by decide +kernel)⟩

/-- A call is dropped by a thread that unwinds while it waits for its partition: the callback is
never called. -/
theorem unwinding_skips_callback :
    (run (sampleConfig .plain) 1000 (sampleSend.take 2 ++ [.drop 0 true])).accounts =
      [⟨0, contextOf 0, .abandoned⟩] := by
  decide +kernel

end Sends

end Krafka.Producer
