import MySkipList.Proof.Protorpc.Client

namespace MySkipList.Protorpc.Client
open Foundation

/-- The event loop has returned with the mutex. -/
structure Stuck (client : Client) : Prop where
  held : client.callsMutex = true
  late : ∀ index res, client.loop ≠ .storing index res

/-- What a stuck client still does: a call writes its request, and a call without a connection is refused. -/
def Idle (event : CallEvent) : Prop :=
  (∃ index buf, event = .written index buf) ∨ ∃ index, event = .refused index

section Stuck
variable {protobuf : Protobuf} {client after : Client} {events : List CallEvent} {index : Nat} {call : Call}

theorem Stuck.advanced (stuck : client.Stuck)
    (stepped : client.advance protobuf index call = .ok (events, after)) :
    after.Stuck ∧ ∀ event ∈ events, Idle event := by
  unfold advance at stepped
  split at stepped
  · obtain ⟨rfl, rfl⟩ := Prod.mk.inj (Except.ok.inj stepped)
    exact ⟨⟨stuck.held, stuck.late⟩, by simp⟩
  · obtain ⟨rfl, rfl⟩ := Prod.mk.inj (Except.ok.inj stepped)
    exact ⟨⟨stuck.held, stuck.late⟩, by simp⟩
  · obtain ⟨written, sent, stepped⟩ := (Exec.bind_eq_ok _ _ _).mp stepped
    obtain ⟨rfl, rfl⟩ := Prod.mk.inj (Except.ok.inj stepped)
    refine ⟨⟨stuck.held, stuck.late⟩, fun event member => ?_⟩
    obtain ⟨buf, _, rfl⟩ := List.mem_map.mp member
    exact Or.inl ⟨index, buf, rfl⟩
  · split at stepped
    · obtain ⟨rfl, rfl⟩ := Prod.mk.inj (Except.ok.inj stepped)
      exact ⟨⟨stuck.held, stuck.late⟩, by simp⟩
    · cases stepped
  · rw [if_pos stuck.held] at stepped
    obtain ⟨rfl, rfl⟩ := Prod.mk.inj (Except.ok.inj stepped)
    exact ⟨stuck, by simp⟩
  · obtain ⟨rfl, rfl⟩ := Prod.mk.inj (Except.ok.inj stepped)
    exact ⟨stuck, by simp⟩

theorem Stuck.delivered (stuck : client.Stuck) : client.deliver = ([], client) := by
  unfold deliver
  split
  · rfl
  · rw [if_pos stuck.held]
  · next index res storing => exact absurd storing (stuck.late index res)

theorem Stuck.stepped {action : Action} (stuck : client.Stuck)
    (stepped : step protobuf client action = .ok (events, after)) :
    after.Stuck ∧ ∀ event ∈ events, Idle event := by
  cases action with
  | connect =>
      obtain ⟨rfl, rfl⟩ := Prod.mk.inj (Except.ok.inj stepped)
      exact ⟨⟨stuck.held, stuck.late⟩, by simp⟩
  | call method params uninitialized =>
      simp only [step] at stepped
      split at stepped <;> obtain ⟨rfl, rfl⟩ := Prod.mk.inj (Except.ok.inj stepped)
      · exact ⟨⟨stuck.held, stuck.late⟩, by simp⟩
      · refine ⟨⟨stuck.held, stuck.late⟩, fun event member => ?_⟩
        obtain rfl := List.mem_singleton.mp member
        exact Or.inr ⟨client.threads.length, rfl⟩
  | advance index =>
      simp only [step] at stepped
      split at stepped
      · obtain ⟨rfl, rfl⟩ := Prod.mk.inj (Except.ok.inj stepped)
        exact ⟨stuck, by simp⟩
      · next call found => exact stuck.advanced stepped
  | onConnection connected =>
      simp only [step] at stepped
      split at stepped <;> obtain ⟨rfl, rfl⟩ := Prod.mk.inj (Except.ok.inj stepped)
      · exact ⟨⟨stuck.held, stuck.late⟩, by simp⟩
      · exact ⟨stuck, by simp⟩
  | onMessage package =>
      simp only [step] at stepped
      split at stepped
      · obtain ⟨next, handled, stepped⟩ := (Exec.bind_eq_ok _ _ _).mp stepped
        obtain ⟨rfl, rfl⟩ := Prod.mk.inj (Except.ok.inj stepped)
        rcases onMessage_cases handled with rfl | ⟨res, rfl⟩
        · exact ⟨stuck, by simp⟩
        · exact ⟨⟨stuck.held, fun _ _ storing => by (cases storing)⟩, by simp⟩
      · obtain ⟨rfl, rfl⟩ := Prod.mk.inj (Except.ok.inj stepped)
        exact ⟨stuck, by simp⟩
  | deliver =>
      have same := stepped
      simp only [step, stuck.delivered] at same
      obtain ⟨rfl, rfl⟩ := Prod.mk.inj (Except.ok.inj same)
      exact ⟨stuck, by simp⟩

theorem advance_known {res : Response} (stepped : client.advance protobuf index call = .ok (events, after)) :
    .unknown res ∉ events := by
  unfold advance at stepped
  split at stepped
  · obtain ⟨rfl, rfl⟩ := Prod.mk.inj (Except.ok.inj stepped)
    exact List.not_mem_nil
  · obtain ⟨rfl, rfl⟩ := Prod.mk.inj (Except.ok.inj stepped)
    exact List.not_mem_nil
  · obtain ⟨written, sent, stepped⟩ := (Exec.bind_eq_ok _ _ _).mp stepped
    obtain ⟨rfl, rfl⟩ := Prod.mk.inj (Except.ok.inj stepped)
    simp
  · split at stepped
    · obtain ⟨rfl, rfl⟩ := Prod.mk.inj (Except.ok.inj stepped)
      exact List.not_mem_nil
    · cases stepped
  · split at stepped <;> obtain ⟨rfl, rfl⟩ := Prod.mk.inj (Except.ok.inj stepped) <;> simp
  · obtain ⟨rfl, rfl⟩ := Prod.mk.inj (Except.ok.inj stepped)
    exact List.not_mem_nil

/-- A response without a call leaves the mutex locked. -/
theorem deliver_unknown {res : Response} (unknown : .unknown res ∈ client.deliver.1) : client.deliver.2.Stuck := by
  cases place : client.loop with
  | idle => simp [deliver, place] at unknown
  | locking response =>
      simp only [deliver, place] at unknown ⊢
      by_cases held : client.callsMutex = true
      · rw [if_pos held] at unknown
        cases unknown
      · rw [if_neg held] at unknown ⊢
        cases entry : client.calls response.id with
        | none => exact ⟨rfl, fun _ _ storing => by (cases storing)⟩
        | some index => simp [entry] at unknown
  | storing index response =>
      simp only [deliver, place] at unknown
      split at unknown <;> simp at unknown

theorem step_unknown {action : Action} {res : Response} (stepped : step protobuf client action = .ok (events, after))
    (unknown : .unknown res ∈ events) : after.Stuck := by
  cases action with
  | connect =>
      obtain ⟨rfl, rfl⟩ := Prod.mk.inj (Except.ok.inj stepped)
      cases unknown
  | call method params uninitialized =>
      simp only [step] at stepped
      split at stepped <;> obtain ⟨rfl, rfl⟩ := Prod.mk.inj (Except.ok.inj stepped) <;> simp at unknown
  | advance index =>
      simp only [step] at stepped
      split at stepped
      · obtain ⟨rfl, rfl⟩ := Prod.mk.inj (Except.ok.inj stepped)
        cases unknown
      · exact absurd unknown (advance_known stepped)
  | onConnection connected =>
      simp only [step] at stepped
      split at stepped <;> obtain ⟨rfl, rfl⟩ := Prod.mk.inj (Except.ok.inj stepped) <;> cases unknown
  | onMessage package =>
      simp only [step] at stepped
      split at stepped
      · obtain ⟨next, handled, stepped⟩ := (Exec.bind_eq_ok _ _ _).mp stepped
        obtain ⟨rfl, rfl⟩ := Prod.mk.inj (Except.ok.inj stepped)
        cases unknown
      · obtain ⟨rfl, rfl⟩ := Prod.mk.inj (Except.ok.inj stepped)
        cases unknown
  | deliver =>
      obtain ⟨rfl, rfl⟩ := Prod.mk.inj (Except.ok.inj stepped)
      exact deliver_unknown unknown

end Stuck

/-- The early return of `onMessage` keeps the mutex. After one response whose call has already returned, or that has a
number of no call, no call that had a connection returns any more and no later response reaches its call, whatever
happens. -/
theorem run_stuck (protobuf : Protobuf) (actions later : List Action) (events more : List (List CallEvent))
    (client final : Client) (res : Response) (returned : run (step protobuf) new actions = .ok (events, client))
    (unknown : .unknown res ∈ events.flatten) (continued : run (step protobuf) client later = .ok (more, final)) :
    ∀ event ∈ more.flatten, Idle event := by
  have reached := run_outputs_of_meets (step protobuf) (fun _ _ => True)
    (fun past state => .unknown res ∈ past.flatten → state.Stuck)
    (fun past state action output next before _ stepped member => by
      rw [List.flatten_append, List.flatten_singleton] at member
      rcases List.mem_append.mp member with old | fresh
      · exact ((before old).stepped stepped).1
      · exact step_unknown stepped fresh)
    [] new client actions events (fun member => by cases member) (fun _ _ => trivial) returned
  rw [List.nil_append] at reached
  have kept := run_outputs_of_meets (step protobuf) (fun _ _ => True)
    (fun past state => state.Stuck ∧ ∀ event ∈ past.flatten, Idle event)
    (fun past state action output next before _ stepped => by
      obtain ⟨stuck, silent⟩ := before
      obtain ⟨still, idle⟩ := stuck.stepped stepped
      rw [List.flatten_append, List.flatten_singleton]
      refine ⟨still, fun event member => ?_⟩
      rcases List.mem_append.mp member with old | fresh
      · exact silent event old
      · exact idle event fresh)
    [] client final later more ⟨reached unknown, by simp⟩ (fun _ _ => trivial) continued
  exact kept.2

/-- The first call returns without an answer, and the answer comes after it. -/
def lateAnswer : List Action :=
  [.connect, .onConnection true, .call (bytes "add") [[toByte 8, toByte 21], [toByte 8, toByte 21]] Message.zero.head,
    .advance 0, .advance 0, .advance 0, .advance 0, .advance 0,
    .onMessage sampleAnswer, .deliver]

/-- The second call writes its request, waits, and wants to erase its entry; another message comes; the connection ends
and a third call is made. -/
def afterwards : List Action :=
  [.call (bytes "add") [] Message.zero.head, .advance 1, .advance 1, .advance 1, .advance 1, .advance 1,
    .onConnection false, .call (bytes "add") [] Message.zero.head, .onMessage sampleAnswer, .deliver, .advance 1]

set_option maxRecDepth 20000 in
/-- The second call waits for the mutex in vain, and so does the event loop with the later message. -/
theorem run_stuck_late :
    ∃ events client more final buf res, run (step sample) new lateAnswer = .ok (events, client) ∧
      run (step sample) client afterwards = .ok (more, final) ∧
      more.flatten = [.written 1 buf, .refused 2] ∧
      final.threads.map Call.phase = [.returned, .erasing, .returned] ∧ final.loop = .locking res ∧
      ∀ event ∈ more.flatten, Idle event :=
  ⟨_, _, _, _, _, _, rfl, rfl, rfl, rfl, rfl, run_stuck sample lateAnswer afterwards _ _ _ _
    ⟨1, [toByte 8, toByte 42], none⟩ rfl (by simp) rfl⟩

end MySkipList.Protorpc.Client
