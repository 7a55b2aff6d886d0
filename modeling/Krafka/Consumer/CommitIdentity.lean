import Krafka.Consumer.Rejoin

/-! Who a commit speaks for. `commit_positions` reads the positions once and the identity of the
member anew on every attempt. -/

namespace Krafka.Consumer.Classic

open Runs

def CommitStage.underWay : CommitStage → Bool
  | .idle => false
  | _ => true

def CommitStage.Under (identity : Identity) : CommitStage → Prop
  | .idle => True
  | .attempting commit | .sleeping commit => commit.readUnder = identity
  | .connecting commit sending | .waiting commit sending =>
    commit.readUnder = identity ∧ sending = identity

def KeepsIdentity (g : GroupMember) (input : GroupInput) : Prop :=
  g.commit.underWay → (g.step input).coordinator.identity = g.coordinator.identity

instance (g : GroupMember) (input : GroupInput) : Decidable (KeepsIdentity g input) :=
  inferInstanceAs (Decidable (_ → _))

structure Attributed (g : GroupMember) : Prop where
  under : g.commit.Under g.coordinator.identity
  sent : ∀ sent ∈ g.sentCommits, sent.identity = sent.commit.readUnder

section Turn

variable {g : GroupMember}

theorem retry_under {identity : Identity} {commit : Commit} (under : commit.readUnder = identity)
    (error : KrafkaError) : (commit.retry error).Under identity := by
  unfold Commit.retry
  split
  · exact under
  · trivial

theorem commitTurn_under (reply : Reply) (under : g.commit.Under g.coordinator.identity) :
    (g.commitTurn reply).commit.Under g.coordinator.identity := by
  unfold GroupMember.commitTurn
  generalize g.commit = stage at under
  cases stage with
  | idle =>
    dsimp only
    split
    · trivial
    · rfl
  | attempting =>
    dsimp only
    split
    · trivial
    · split
      · exact retry_under under _
      · exact ⟨under, rfl⟩
  | connecting =>
    dsimp only
    split
    · exact under
    · exact retry_under under.1 _
  | waiting =>
    dsimp only
    split
    · exact retry_under under.1 _
    · trivial
    · split <;> exact retry_under under.1 _
  | sleeping => exact under

theorem commitTurn_sent (reply : Reply) :
    (g.commitTurn reply).sentCommits = g.sentCommits ∨
      ∃ commit sending, g.commit = .connecting commit sending ∧
        (g.commitTurn reply).sentCommits = g.sentCommits ++ [⟨sending, commit⟩] := by
  unfold GroupMember.commitTurn
  cases stage : g.commit with
  | connecting commit sending =>
    dsimp only
    split
    · exact .inr ⟨commit, sending, rfl, rfl⟩
    · exact .inl rfl
  | waiting =>
    dsimp only
    split
    · exact .inl rfl
    · exact .inl rfl
    · split <;> exact .inl rfl
  | idle | attempting | sleeping => exact .inl rfl

theorem OtherStep.commit {g' : GroupMember} {input : GroupInput} (step : OtherStep g input g')
    (other : ∀ reply, input ≠ .commit reply) :
    g'.sentCommits = g.sentCommits ∧ (g'.commit = g.commit ∨ g'.commit = .idle) := by
  cases step with
  | commits at_ => exact absurd at_ (other _)
  | dropsCommit => exact ⟨rfl, .inr rfl⟩
  | _ => exact ⟨rfl, .inl rfl⟩

theorem step_commit {input : GroupInput} (other : ∀ reply, input ≠ .commit reply) :
    (g.step input).sentCommits = g.sentCommits ∧
      ((g.step input).commit = g.commit ∨ (g.step input).commit = .idle) := by
  refine @stepwise (fun g' => g'.sentCommits = g.sentCommits ∧
    (g'.commit = g.commit ∨ g'.commit = .idle)) g input ⟨rfl, .inl rfl⟩ (fun _ step => ?_) fun turns => ?_
  · obtain ⟨_, _, _, _, _, _, _, _, _, rfl⟩ := step.eq
    exact ⟨rfl, .inl rfl⟩
  · by_cases polls : input = .poll
    · obtain ⟨_, _, _, _, _, _, _, _, same⟩ := pollTurn_eq g
      rw [polls, GroupMember.step, same]
      exact ⟨rfl, .inl rfl⟩
    · exact (other_step g polls turns).commit other

end Turn

theorem Attributed.step {g : GroupMember} {input : GroupInput} (keeps : KeepsIdentity g input)
    (attributed : Attributed g) : Attributed (g.step input) := by
  by_cases commit : ∃ reply, input = .commit reply
  · obtain ⟨reply, rfl⟩ := commit
    have identity : (g.step (.commit reply)).coordinator.identity = g.coordinator.identity := by
      cases stage : g.commit with
      | idle => simp only [GroupMember.step, GroupMember.commitTurn, stage]
      | attempting | connecting | waiting | sleeping => exact keeps (stage ▸ rfl)
    refine ⟨identity ▸ commitTurn_under reply attributed.under, fun sent mem => ?_⟩
    rcases commitTurn_sent (g := g) reply with same | ⟨commit, sending, at_, added⟩
    · exact attributed.sent sent (same ▸ mem)
    · have under := attributed.under
      rw [at_] at under
      change sent ∈ (g.commitTurn reply).sentCommits at mem
      rw [added, List.mem_append, List.mem_singleton] at mem
      rcases mem with old | rfl
      · exact attributed.sent sent old
      · exact under.2.trans under.1.symm
  · obtain ⟨sent, kept | dropped⟩ := step_commit (g := g) fun reply same => commit ⟨reply, same⟩
    · refine ⟨?_, sent ▸ attributed.sent⟩
      rw [kept]
      cases stage : g.commit with
      | idle => trivial
      | attempting | connecting | waiting | sleeping =>
        rw [keeps (stage ▸ rfl), ← stage]
        exact attributed.under
    · exact ⟨by rw [dropped]; trivial, sent ▸ attributed.sent⟩

/-- Every commit is sent under the identity its positions were read under. -/
theorem commits_sent_as_read (groupId : String) (isStatic : Bool)
    (strategy : PartitionAssignmentStrategy) (inputs : List GroupInput)
    (keeps : Along GroupMember.step KeepsIdentity (.fresh groupId isStatic strategy) inputs) :
    ∀ sent ∈ ((GroupMember.fresh groupId isStatic strategy).run inputs).sentCommits,
      sent.identity = sent.commit.readUnder :=
  (keeps.invariant Attributed (fun _ _ keeps attributed => attributed.step keeps)
    ⟨trivial, nofun⟩).sent

def sampleCommit : List GroupInput :=
  .subscribe ["t"] :: sampleJoin ++ List.replicate 12 GroupInput.poll ++
    [GroupInput.operation (.seek ("t", 0) 5)] ++
    List.replicate 3 (GroupInput.commit {})

/-- The answer to the first attempt is lost. Before the second one the member has joined again
and been assigned another partition. -/
theorem retried_commit_changes_identity :
    let g := (GroupMember.fresh "g" false .range).run
      (sampleCommit ++ [.commit {}, .refuseOffsets .staleMemberEpoch] ++ List.replicate 10 .poll ++
        roundSends ++ roundSucceeds "m" 2 (AList.singleton "t" [1]) ++ roundEnds ++
        List.replicate 8 .poll ++ List.replicate 3 (.commit {}))
    g.state.assignedKeys = [("t", 1)] ∧
      g.sentCommits =
        [⟨⟨"m", 1⟩, { offsets := [(("t", 0), 5, none)], readUnder := ⟨"m", 1⟩ }⟩,
          ⟨⟨"m", 2⟩, { offsets := [(("t", 0), 5, none)], readUnder := ⟨"m", 1⟩, attempt := 1 }⟩] := by
  decide +kernel

theorem sampleCommit_sent_as_read :
    ((GroupMember.fresh "g" false .range).run sampleCommit).sentCommits ≠ [] ∧
    ∀ sent ∈ ((GroupMember.fresh "g" false .range).run sampleCommit).sentCommits,
      sent.identity = sent.commit.readUnder :=
  ⟨by decide +kernel, commits_sent_as_read "g" false .range sampleCommit (by decide +kernel)⟩

end Krafka.Consumer.Classic
