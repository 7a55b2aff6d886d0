import Krafka.Consumer.Convergence

/-! A cooperative group in the course of time. A round reads what its members own and deals out
assignments; each member takes its own when it comes to it, and may lose what it owns at any
moment. Who stays away from a round is out of the group. -/

namespace Krafka.Consumer

structure Group where
  owned : String → List PartitionKey := fun _ => []
  dealt : String → List PartitionKey := fun _ => []

inductive GroupEvent where
  | round (subscriptions : List (String × KeySet String × Int))
      (partitions : AList fun _ : String => List Int)
  | take (memberId : String)
  | lose (memberId : String) (lost : List PartitionKey)

namespace Group

open Function

variable (g : Group)

def report (entry : String × KeySet String × Int) : MemberSubscription :=
  { memberId := entry.1, topics := entry.2.1, owned := g.owned entry.1, generation := entry.2.2 }

def step : GroupEvent → Group
  | .round subscriptions partitions =>
    { owned := fun id => if id ∈ subscriptions.map (·.1) then g.owned id else []
      dealt := Assignments.given (cooperativeRound (subscriptions.map g.report) partitions) }
  | .take memberId => { g with owned := update g.owned memberId (g.dealt memberId) }
  | .lose memberId lost =>
    { g with owned := update g.owned memberId ((g.owned memberId).filter (· ∉ lost)) }

def holds (memberId : String) : List PartitionKey := g.owned memberId ++ g.dealt memberId

/-- What a member owns or is about to own is nobody else's. -/
def Exclusive : Prop := ∀ a b tp, tp ∈ g.holds a → tp ∈ g.holds b → a = b

variable {g}

theorem Exclusive.reown (exclusive : g.Exclusive) {memberId : String} {keys : List PartitionKey}
    (held : keys ⊆ g.holds memberId) :
    Exclusive { g with owned := update g.owned memberId keys } := by
  have fewer {id : String} {tp : PartitionKey}
      (holds : tp ∈ update g.owned memberId keys id ++ g.dealt id) : tp ∈ g.holds id := by
    rcases List.mem_append.mp holds with owned | dealt
    · rcases Lists.mem_update owned with ⟨rfl, new⟩ | ⟨-, old⟩
      · exact held new
      · exact List.mem_append_left _ old
    · exact List.mem_append_right _ dealt
  exact fun a b tp here there => exclusive a b tp (fewer here) (fewer there)

/-- A partition that somebody owns is dealt to its owner or withheld: the owner's claim wins. -/
theorem Exclusive.deal (exclusive : g.Exclusive)
    {subscriptions : List (String × KeySet String × Int)}
    {partitions : AList fun _ : String => List Int} {a b : String} {tp : PartitionKey}
    (dealt : tp ∈ (g.step (.round subscriptions partitions)).dealt a)
    (owned : tp ∈ (g.step (.round subscriptions partitions)).owned b) : a = b := by
  obtain ⟨taking, owned⟩ := List.mem_ite_nil_right.mp owned
  obtain ⟨entry, listed, rfl⟩ := List.mem_map.mp taking
  obtain ⟨owner, won⟩ := exists_resolveClaims (List.mem_map_of_mem (f := g.report) listed) owned
  have claimed := owned_of_resolveClaims won
  have reported : ∀ m ∈ subscriptions.map g.report, m.owned = g.owned m.memberId :=
    List.forall_mem_map.mpr fun _ _ => rfl
  rw [reported _ (List.get_mem _ _)] at claimed
  rw [← (mem_given_withhold.mp dealt).2 owner won]
  exact exclusive _ _ tp (List.mem_append_left _ claimed) (List.mem_append_left _ owned)

theorem Exclusive.step (exclusive : g.Exclusive) (event : GroupEvent) :
    (g.step event).Exclusive := by
  cases event with
  | round subscriptions partitions =>
    intro a b tp here there
    rcases List.mem_append.mp here with owned | dealt
    · rcases List.mem_append.mp there with owned' | dealt'
      · exact exclusive a b tp (List.mem_append_left _ (List.mem_ite_nil_right.mp owned).2)
          (List.mem_append_left _ (List.mem_ite_nil_right.mp owned').2)
      · exact (exclusive.deal dealt' owned).symm
    · rcases List.mem_append.mp there with owned' | dealt'
      · exact exclusive.deal dealt owned'
      · exact given_unique (given_cooperativeRound dealt) (given_cooperativeRound dealt')
  | take => exact exclusive.reown fun _ => List.mem_append_right _
  | lose => exact exclusive.reown fun _ kept => List.mem_append_left _ (List.mem_of_mem_filter kept)

/-- Whatever rounds a group goes through, and however its members lag behind them, no partition
is ever owned by two of them, nor dealt to one while another owns it. -/
theorem partitions_have_one_holder (events : List GroupEvent) :
    (events.foldl Group.step {}).Exclusive :=
  List.foldlRecOn events Group.step (motive := Exclusive) (fun _ _ _ => nofun)
    fun _ exclusive event _ => exclusive.step event

end Group

end Krafka.Consumer
