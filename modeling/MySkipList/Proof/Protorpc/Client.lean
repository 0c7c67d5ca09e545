import MySkipList.Proof.Protorpc.Exchange

namespace MySkipList.Protorpc.Client
open Foundation

/-- A call that has its number. -/
def Numbered (client : Client) (index : Nat) (id : BitVec 64) : Prop :=
  ∃ call, client.threads[index]? = some call ∧ call.phase ≠ .numbering ∧ call.req.id = id ∧ id ≠ 0

/-- The table, the event loop, the contexts and the results pair calls with responses to their own numbers. -/
structure Answers (trace : List CallEvent) (client : Client) : Prop where
  entry : ∀ id index, client.calls id = some index → client.Numbered index id
  loop : ∀ index res, client.loop = .storing index res → client.Numbered index res.id
  context : ∀ index call res, client.threads[index]? = some call → call.context = some res ∨ call.res = some res →
    client.Numbered index res.id ∧ .stored index res ∈ trace
  returned : ∀ index res, .returned index (some res) ∈ trace →
    client.Numbered index res.id ∧ .stored index res ∈ trace

section Answers
variable {protobuf : Protobuf} {trace : List CallEvent} {client : Client} {index : Nat} {call next : Call}

@[simp] theorem place_calls (client : Client) (index : Nat) (call : Call) :
    (client.place index call).calls = client.calls := rfl

theorem new_answers : Answers [] new where
  entry _ _ found := by cases found
  loop _ _ storing := by cases storing
  context _ _ _ found := by cases found
  returned _ _ member := by cases member

/-- A step of a call keeps its number. -/
theorem Numbered.place {query : Nat} {id : BitVec 64} (numbered : client.Numbered query id)
    (found : client.threads[index]? = some call) (named : next.phase ≠ .numbering)
    (own : call.phase ≠ .numbering → next.req.id = call.req.id) : (client.place index next).Numbered query id := by
  obtain ⟨other, located, late, same, nonzero⟩ := numbered
  have inside : index < client.threads.length := (List.getElem?_eq_some_iff.mp found).1
  by_cases equal : index = query
  · subst equal
    obtain rfl := Option.some.inj (found.symm.trans located)
    exact ⟨next, by simp [Client.place, inside], named, (own late).trans same, nonzero⟩
  · exact ⟨other, by simp [Client.place, equal, located], late, same, nonzero⟩

/-- A step of a call keeps the pairs, if its new response was stored for it. -/
theorem Answers.place (answers : Answers trace client) (found : client.threads[index]? = some call)
    (named : next.phase ≠ .numbering) (own : call.phase ≠ .numbering → next.req.id = call.req.id)
    (kept : ∀ res, next.context = some res ∨ next.res = some res →
      client.Numbered index res.id ∧ .stored index res ∈ trace) : Answers trace (client.place index next) where
  entry id query stored := (answers.entry id query stored).place found named own
  loop query res storing := (answers.loop query res storing).place found named own
  context query other res located has := by
    have inside : index < client.threads.length := (List.getElem?_eq_some_iff.mp found).1
    by_cases equal : index = query
    · subst equal
      have same : next = other := by simpa [Client.place, inside] using located
      subst same
      exact ⟨(kept res has).1.place found named own, (kept res has).2⟩
    · have before : client.threads[query]? = some other := by simpa [Client.place, equal] using located
      have old := answers.context query other res before has
      exact ⟨old.1.place found named own, old.2⟩
  returned query res member :=
    ⟨(answers.returned query res member).1.place found named own, (answers.returned query res member).2⟩

/-- More events without a result keep the pairs. -/
theorem Answers.extend (answers : Answers trace client) {more : List CallEvent}
    (silent : ∀ index res, .returned index (some res) ∈ more → client.Numbered index res.id ∧ .stored index res ∈ trace) :
    Answers (trace ++ more) client where
  entry := answers.entry
  loop := answers.loop
  context index call res found has :=
    ⟨(answers.context index call res found has).1, List.mem_append_left _ (answers.context index call res found has).2⟩
  returned index res member := by
    rcases List.mem_append.mp member with old | fresh
    · exact ⟨(answers.returned index res old).1, List.mem_append_left _ (answers.returned index res old).2⟩
    · exact ⟨(silent index res fresh).1, List.mem_append_left _ (silent index res fresh).2⟩

/-- A changed table keeps the pairs, if its entries are calls with their numbers. -/
theorem Answers.table (answers : Answers trace client) {calls : BitVec 64 → Option Nat}
    (entries : ∀ id index, calls id = some index → client.Numbered index id) :
    Answers trace { client with calls := calls } where
  entry := entries
  loop := answers.loop
  context := answers.context
  returned := answers.returned

theorem Answers.advanced {events : List CallEvent} {after : Client} (answers : Answers trace client)
    (found : client.threads[index]? = some call) (named : call.phase = .storing → call.req.id ≠ 0)
    (stepped : client.advance protobuf index call = .ok (events, after)) :
    Answers (trace ++ events) after := by
  have kept : ∀ res, call.context = some res ∨ call.res = some res →
      client.Numbered index res.id ∧ .stored index res ∈ trace := fun res => answers.context index call res found
  unfold advance at stepped
  split at stepped
  · next phase =>
      obtain ⟨rfl, rfl⟩ := Prod.mk.inj (Except.ok.inj stepped)
      have placed : Answers trace (client.place index
          { call with phase := .storing, req := { call.req with id := client.sId + 1 } }) :=
        answers.place found CallPhase.noConfusion (fun late => absurd phase late) kept
      rw [List.append_nil]
      exact ⟨placed.entry, placed.loop, placed.context, placed.returned⟩
  · next phase =>
      obtain ⟨rfl, rfl⟩ := Prod.mk.inj (Except.ok.inj stepped)
      have inside : index < client.threads.length := (List.getElem?_eq_some_iff.mp found).1
      have placed : Answers trace (client.place index { call with phase := .writing }) :=
        answers.place found CallPhase.noConfusion (fun _ => rfl) kept
      rw [List.append_nil]
      refine placed.table fun id query stored => ?_
      by_cases own : id = call.req.id
      · subst own
        obtain rfl : index = query := by simpa using stored
        exact ⟨{ call with phase := .writing }, by simp [Client.place, inside], CallPhase.noConfusion, rfl, named phase⟩
      · exact placed.entry id query (by simpa [own] using stored)
  · next phase =>
      obtain ⟨written, sent, stepped⟩ := (Exec.bind_eq_ok _ _ _).mp stepped
      obtain ⟨rfl, rfl⟩ := Prod.mk.inj (Except.ok.inj stepped)
      have placed : Answers trace (client.place index { call with phase := .waiting }) :=
        answers.place found CallPhase.noConfusion (fun _ => rfl) kept
      exact placed.extend (by simp)
  · next phase =>
      split at stepped
      · obtain ⟨rfl, rfl⟩ := Prod.mk.inj (Except.ok.inj stepped)
        rw [List.append_nil]
        exact answers.place found CallPhase.noConfusion (fun _ => rfl) fun res has => kept res (Or.inl (has.elim id id))
      · cases stepped
  · next phase =>
      split at stepped
      · obtain ⟨rfl, rfl⟩ := Prod.mk.inj (Except.ok.inj stepped)
        rw [List.append_nil]
        exact answers
      · obtain ⟨rfl, rfl⟩ := Prod.mk.inj (Except.ok.inj stepped)
        have placed : Answers trace (client.place index { call with phase := .returned }) :=
          answers.place found CallPhase.noConfusion (fun _ => rfl) kept
        have entries (id : BitVec 64) (query : Nat)
            (stored : Function.update client.calls call.req.id none id = some query) :
            (client.place index { call with phase := .returned }).Numbered query id := by
          by_cases own : id = call.req.id
          · subst own
            simp at stored
          · exact placed.entry id query (by simpa [own] using stored)
        refine (placed.table entries).extend fun query res member => ?_
        obtain ⟨rfl, same⟩ : query = index ∧ some res = call.res := by simpa using member
        have old := kept res (Or.inr same.symm)
        exact ⟨old.1.place found CallPhase.noConfusion fun _ => rfl, old.2⟩
  · obtain ⟨rfl, rfl⟩ := Prod.mk.inj (Except.ok.inj stepped)
    rw [List.append_nil]
    exact answers

/-- An idle loop keeps the pairs. -/
theorem Answers.idle (answers : Answers trace client) : Answers trace { client with loop := .idle } where
  entry := answers.entry
  loop _ _ storing := by cases storing
  context := answers.context
  returned := answers.returned

theorem Answers.delivered (answers : Answers trace client) :
    Answers (trace ++ client.deliver.1) client.deliver.2 := by
  unfold deliver
  split
  · rw [List.append_nil]
    exact answers
  · next res locking =>
      split
      · rw [List.append_nil]
        exact answers
      · split
        · have idle : Answers (trace ++ [.unknown res]) { client with loop := .idle } := answers.idle.extend (by simp)
          exact ⟨idle.entry, idle.loop, idle.context, idle.returned⟩
        · next index found =>
            rw [List.append_nil]
            refine ⟨answers.entry, fun query other storing => ?_, answers.context, answers.returned⟩
            obtain ⟨rfl, rfl⟩ := Loop.storing.inj storing
            exact answers.entry res.id index found
  · next index res storing =>
      have numbered := answers.loop index res storing
      split
      · rw [List.append_nil]
        exact answers.idle
      · next call found =>
          obtain ⟨other, located, late, own⟩ := numbered
          obtain rfl := Option.some.inj (located.symm.trans found)
          have told : Answers (trace ++ [.stored index res]) client := answers.extend (by simp)
          have placed : Answers (trace ++ [.stored index res])
              (client.place index { other with context := some res }) := by
            refine told.place found late (fun _ => rfl) fun response has => ?_
            rcases has with fresh | old
            · obtain rfl := Option.some.inj fresh
              exact ⟨⟨other, located, late, own⟩, by simp⟩
            · exact told.context index other response found (Or.inr old)
          exact placed.idle

/-- A new call has no response. -/
theorem Answers.opened (answers : Answers trace client) (context : call.context = none) (res : call.res = none) :
    Answers trace { client with threads := client.threads ++ [call] } := by
  have still {query : Nat} {id : BitVec 64} (numbered : client.Numbered query id) :
      Numbered { client with threads := client.threads ++ [call] } query id := by
    obtain ⟨other, located, late, own⟩ := numbered
    exact ⟨other, by rw [List.getElem?_append_left (List.getElem?_eq_some_iff.mp located).1]; exact located, late, own⟩
  refine ⟨fun id query stored => still (answers.entry id query stored),
    fun query response storing => still (answers.loop query response storing), fun query other response found has => ?_,
    fun query response member => ⟨still (answers.returned query response member).1,
      (answers.returned query response member).2⟩⟩
  rcases lt_or_ge query client.threads.length with inside | beyond
  · rw [List.getElem?_append_left inside] at found
    have old := answers.context query other response found has
    exact ⟨still old.1, old.2⟩
  · rw [List.getElem?_append_right beyond, List.getElem?_singleton] at found
    split at found
    · obtain rfl := Option.some.inj found
      rw [context, res] at has
      rcases has with has | has <;> cases has
    · cases found

/-- A message gives the loop a response or nothing. -/
theorem onMessage_cases {package : Package} {after : Client}
    (handled : client.onMessage protobuf package = .ok after) :
    after = client ∨ ∃ res, after = { client with loop := .locking res } := by
  obtain ⟨received, _, handled⟩ := (Exec.bind_eq_ok _ _ _).mp handled
  split at handled
  · exact Or.inl (Except.ok.inj handled).symm
  · split at handled
    · exact Or.inl (Except.ok.inj handled).symm
    · next res _ => exact Or.inr ⟨res, (Except.ok.inj handled).symm⟩

theorem Answers.stepped {events : List CallEvent} {after : Client} {action : Action} (answers : Answers trace client)
    (named : ∀ (index : Nat) (call : Call), client.threads[index]? = some call → call.phase = .storing → call.req.id ≠ 0)
    (stepped : step protobuf client action = .ok (events, after)) : Answers (trace ++ events) after := by
  cases action with
  | connect =>
      obtain ⟨rfl, rfl⟩ := Prod.mk.inj (Except.ok.inj stepped)
      rw [List.append_nil]
      exact ⟨answers.entry, answers.loop, answers.context, answers.returned⟩
  | call method params uninitialized =>
      simp only [step] at stepped
      split at stepped
      · obtain ⟨rfl, rfl⟩ := Prod.mk.inj (Except.ok.inj stepped)
        rw [List.append_nil]
        exact answers.opened rfl rfl
      · obtain ⟨rfl, rfl⟩ := Prod.mk.inj (Except.ok.inj stepped)
        exact (answers.opened rfl rfl).extend (by simp)
  | advance index =>
      simp only [step] at stepped
      split at stepped
      · obtain ⟨rfl, rfl⟩ := Prod.mk.inj (Except.ok.inj stepped)
        rw [List.append_nil]
        exact answers
      · next call found => exact answers.advanced found (named index call found) stepped
  | onConnection connected =>
      simp only [step] at stepped
      split at stepped <;> obtain ⟨rfl, rfl⟩ := Prod.mk.inj (Except.ok.inj stepped) <;> rw [List.append_nil]
      · exact ⟨answers.entry, answers.loop, answers.context, answers.returned⟩
      · exact answers
  | onMessage package =>
      simp only [step] at stepped
      split at stepped
      · next idle =>
          obtain ⟨next, handled, stepped⟩ := (Exec.bind_eq_ok _ _ _).mp stepped
          obtain ⟨rfl, rfl⟩ := Prod.mk.inj (Except.ok.inj stepped)
          rw [List.append_nil]
          rcases onMessage_cases handled with rfl | ⟨res, rfl⟩
          · exact answers
          · exact ⟨answers.entry, fun _ _ storing => by (cases storing), answers.context, answers.returned⟩
      · obtain ⟨rfl, rfl⟩ := Prod.mk.inj (Except.ok.inj stepped)
        rw [List.append_nil]
        exact answers
  | deliver =>
      obtain ⟨rfl, rfl⟩ := Prod.mk.inj (Except.ok.inj stepped)
      exact answers.delivered

end Answers

/-- The numbers of the calls are different, and a call before the increment has none. -/
structure Distinct (client : Client) : Prop where
  bound : ∀ (index : Nat) (call : Call), client.threads[index]? = some call → call.req.id.toNat ≤ client.sId.toNat
  fresh : ∀ (index : Nat) (call : Call), client.threads[index]? = some call → call.phase = .numbering → call.req.id = 0
  named : ∀ (index : Nat) (call : Call), client.threads[index]? = some call → call.phase = .storing → call.req.id ≠ 0
  unique : ∀ (first second : Nat) (call other : Call), client.threads[first]? = some call → client.threads[second]? = some other →
    call.req.id = other.req.id → call.req.id ≠ 0 → first = second

section Distinct
variable {protobuf : Protobuf} {client : Client} {index : Nat} {call next : Call}

theorem new_distinct : Distinct new where
  bound _ _ found := by cases found
  fresh _ _ found := by cases found
  named _ _ found := by cases found
  unique _ _ _ _ found := by cases found

theorem place_cases {query : Nat} {other : Call} (found : client.threads[index]? = some call)
    (located : (client.place index next).threads[query]? = some other) :
    query = index ∧ other = next ∨ query ≠ index ∧ client.threads[query]? = some other := by
  have inside : index < client.threads.length := (List.getElem?_eq_some_iff.mp found).1
  by_cases equal : index = query
  · subst equal
    exact Or.inl ⟨rfl, (by simpa [Client.place, inside] using located : next = other).symm⟩
  · exact Or.inr ⟨Ne.symm equal, by simpa [Client.place, equal] using located⟩

/-- A step of a call that keeps its number keeps the numbers different. -/
theorem Distinct.place (distinct : client.Distinct) (found : client.threads[index]? = some call)
    (own : next.req.id = call.req.id) (numbered : next.phase = .numbering → call.phase = .numbering)
    (stored : next.phase = .storing → call.phase = .storing) : (client.place index next).Distinct where
  bound query other located := by
    rcases place_cases found located with ⟨rfl, rfl⟩ | ⟨_, before⟩
    · exact own ▸ distinct.bound query call found
    · exact distinct.bound query other before
  fresh query other located phase := by
    rcases place_cases found located with ⟨rfl, rfl⟩ | ⟨_, before⟩
    · exact own.trans (distinct.fresh query call found (numbered phase))
    · exact distinct.fresh query other before phase
  named query other located phase := by
    rcases place_cases found located with ⟨rfl, rfl⟩ | ⟨_, before⟩
    · exact own ▸ distinct.named query call found (stored phase)
    · exact distinct.named query other before phase
  unique first second one two located1 located2 same nonzero := by
    rcases place_cases found located1 with ⟨rfl, rfl⟩ | ⟨_, before1⟩ <;>
      rcases place_cases found located2 with ⟨rfl, rfl⟩ | ⟨_, before2⟩
    · rfl
    · exact distinct.unique _ _ call two found before2 (own.symm.trans same) (own ▸ nonzero)
    · exact distinct.unique _ _ one call before1 found (same.trans own) nonzero
    · exact distinct.unique _ _ one two before1 before2 same nonzero

/-- The next number is new. -/
theorem Distinct.numbering (distinct : client.Distinct) (found : client.threads[index]? = some call)
    (room : client.sId.toNat + 1 < 2 ^ 64) :
    Distinct { client.place index { call with phase := .storing, req := { call.req with id := client.sId + 1 } } with
      sId := client.sId + 1 } := by
  have value : (client.sId + 1).toNat = client.sId.toNat + 1 := by
    rw [BitVec.toNat_add]
    exact Nat.mod_eq_of_lt room
  have new (query : Nat) (other : Call) (before : client.threads[query]? = some other) : other.req.id ≠ client.sId + 1 := by
    intro same
    have bound := distinct.bound query other before
    rw [same, value] at bound
    omega
  have nonzero : client.sId + 1 ≠ 0 := by
    intro zero
    have none := value.symm.trans (congrArg BitVec.toNat zero)
    exact absurd none (Nat.succ_ne_zero _)
  refine ⟨fun query other located => ?_, fun query other located phase => ?_, fun query other located phase => ?_,
    fun first second one two located1 located2 same given => ?_⟩
  · rcases place_cases found located with ⟨rfl, rfl⟩ | ⟨_, before⟩
    · exact le_refl _
    · exact (distinct.bound query other before).trans (by rw [value]; omega)
  · rcases place_cases found located with ⟨rfl, rfl⟩ | ⟨_, before⟩
    · cases phase
    · exact distinct.fresh query other before phase
  · rcases place_cases found located with ⟨rfl, rfl⟩ | ⟨_, before⟩
    · exact nonzero
    · exact distinct.named query other before phase
  · rcases place_cases found located1 with ⟨rfl, rfl⟩ | ⟨_, before1⟩ <;>
      rcases place_cases found located2 with ⟨rfl, rfl⟩ | ⟨_, before2⟩
    · rfl
    · exact absurd same.symm (new _ _ before2)
    · exact absurd same (new _ _ before1)
    · exact distinct.unique _ _ one two before1 before2 same given

/-- A new call has no number. -/
theorem Distinct.opened (distinct : client.Distinct) (none : call.req.id = 0) (phase : call.phase ≠ .storing) :
    Distinct { client with threads := client.threads ++ [call] } := by
  have cases {query : Nat} {other : Call} (located : (client.threads ++ [call])[query]? = some other) :
      client.threads[query]? = some other ∨ other = call := by
    rcases lt_or_ge query client.threads.length with inside | beyond
    · rw [List.getElem?_append_left inside] at located
      exact Or.inl located
    · rw [List.getElem?_append_right beyond, List.getElem?_singleton] at located
      split at located
      · exact Or.inr (Option.some.inj located).symm
      · cases located
  refine ⟨fun query other located => ?_, fun query other located start => ?_, fun query other located start => ?_,
    fun first second one two located1 located2 same given => ?_⟩
  · rcases cases located with before | rfl
    · exact distinct.bound query other before
    · rw [none]
      exact Nat.zero_le _
  · rcases cases located with before | rfl
    · exact distinct.fresh query other before start
    · exact none
  · rcases cases located with before | rfl
    · exact distinct.named query other before start
    · exact absurd start phase
  · rcases cases located1 with before1 | rfl
    · rcases cases located2 with before2 | rfl
      · exact distinct.unique first second one two before1 before2 same given
      · exact absurd (same.trans none) given
    · exact absurd none given

theorem Distinct.advanced {events : List CallEvent} {after : Client} (distinct : client.Distinct)
    (room : client.sId.toNat + 1 < 2 ^ 64) (found : client.threads[index]? = some call)
    (stepped : client.advance protobuf index call = .ok (events, after)) :
    after.Distinct ∧ after.sId.toNat ≤ client.sId.toNat + 1 := by
  unfold advance at stepped
  split at stepped
  · obtain ⟨rfl, rfl⟩ := Prod.mk.inj (Except.ok.inj stepped)
    refine ⟨distinct.numbering found room, ?_⟩
    rw [BitVec.toNat_add]
    exact Nat.mod_le _ _
  · obtain ⟨rfl, rfl⟩ := Prod.mk.inj (Except.ok.inj stepped)
    have placed : (client.place index { call with phase := .writing }).Distinct :=
      distinct.place found rfl CallPhase.noConfusion CallPhase.noConfusion
    exact ⟨⟨placed.bound, placed.fresh, placed.named, placed.unique⟩, Nat.le_succ _⟩
  · obtain ⟨written, sent, stepped⟩ := (Exec.bind_eq_ok _ _ _).mp stepped
    obtain ⟨rfl, rfl⟩ := Prod.mk.inj (Except.ok.inj stepped)
    exact ⟨distinct.place found rfl CallPhase.noConfusion CallPhase.noConfusion, Nat.le_succ _⟩
  · split at stepped
    · obtain ⟨rfl, rfl⟩ := Prod.mk.inj (Except.ok.inj stepped)
      exact ⟨distinct.place found rfl CallPhase.noConfusion CallPhase.noConfusion, Nat.le_succ _⟩
    · cases stepped
  · split at stepped
    · obtain ⟨rfl, rfl⟩ := Prod.mk.inj (Except.ok.inj stepped)
      exact ⟨distinct, Nat.le_succ _⟩
    · obtain ⟨rfl, rfl⟩ := Prod.mk.inj (Except.ok.inj stepped)
      have placed : (client.place index { call with phase := .returned }).Distinct :=
        distinct.place found rfl CallPhase.noConfusion CallPhase.noConfusion
      exact ⟨⟨placed.bound, placed.fresh, placed.named, placed.unique⟩, Nat.le_succ _⟩
  · obtain ⟨rfl, rfl⟩ := Prod.mk.inj (Except.ok.inj stepped)
    exact ⟨distinct, Nat.le_succ _⟩

theorem Distinct.delivered (distinct : client.Distinct) :
    client.deliver.2.Distinct ∧ client.deliver.2.sId = client.sId := by
  have same : Distinct { client with loop := .idle } :=
    ⟨distinct.bound, distinct.fresh, distinct.named, distinct.unique⟩
  unfold deliver
  split
  · exact ⟨distinct, rfl⟩
  · split
    · exact ⟨distinct, rfl⟩
    · split <;> exact ⟨⟨distinct.bound, distinct.fresh, distinct.named, distinct.unique⟩, rfl⟩
  · next index res storing =>
      split
      · exact ⟨same, rfl⟩
      · next call found =>
          have placed : (client.place index { call with context := some res }).Distinct :=
            distinct.place found rfl id id
          exact ⟨⟨placed.bound, placed.fresh, placed.named, placed.unique⟩, rfl⟩

theorem Distinct.stepped {events : List CallEvent} {after : Client} {action : Action} (distinct : client.Distinct)
    (room : client.sId.toNat + 1 < 2 ^ 64) (stepped : step protobuf client action = .ok (events, after)) :
    after.Distinct ∧ after.sId.toNat ≤ client.sId.toNat + 1 := by
  cases action with
  | connect =>
      obtain ⟨rfl, rfl⟩ := Prod.mk.inj (Except.ok.inj stepped)
      exact ⟨⟨distinct.bound, distinct.fresh, distinct.named, distinct.unique⟩, Nat.le_succ _⟩
  | call method params uninitialized =>
      simp only [step] at stepped
      split at stepped <;> obtain ⟨rfl, rfl⟩ := Prod.mk.inj (Except.ok.inj stepped) <;>
        exact ⟨distinct.opened rfl CallPhase.noConfusion, Nat.le_succ _⟩
  | advance index =>
      simp only [step] at stepped
      split at stepped
      · obtain ⟨rfl, rfl⟩ := Prod.mk.inj (Except.ok.inj stepped)
        exact ⟨distinct, Nat.le_succ _⟩
      · next call found => exact distinct.advanced room found stepped
  | onConnection connected =>
      simp only [step] at stepped
      split at stepped <;> obtain ⟨rfl, rfl⟩ := Prod.mk.inj (Except.ok.inj stepped) <;>
        exact ⟨⟨distinct.bound, distinct.fresh, distinct.named, distinct.unique⟩, Nat.le_succ _⟩
  | onMessage package =>
      simp only [step] at stepped
      split at stepped
      · obtain ⟨next, handled, stepped⟩ := (Exec.bind_eq_ok _ _ _).mp stepped
        obtain ⟨rfl, rfl⟩ := Prod.mk.inj (Except.ok.inj stepped)
        rcases onMessage_cases handled with rfl | ⟨res, rfl⟩ <;>
          exact ⟨⟨distinct.bound, distinct.fresh, distinct.named, distinct.unique⟩, Nat.le_succ _⟩
      · obtain ⟨rfl, rfl⟩ := Prod.mk.inj (Except.ok.inj stepped)
        exact ⟨distinct, Nat.le_succ _⟩
  | deliver =>
      obtain ⟨rfl, rfl⟩ := Prod.mk.inj (Except.ok.inj stepped)
      exact ⟨distinct.delivered.1, (congrArg BitVec.toNat distinct.delivered.2).le.trans (Nat.le_succ _)⟩

end Distinct

/-- However the calls, the event loop and the messages of any server interleave: a call returns a response only if the
loop has stored it for this call, the response has the number of the call, and no two calls return responses with one
number. -/
theorem run_answers_own (protobuf : Protobuf) (actions : List Action) (events : List (List CallEvent)) (client : Client)
    (returned : run (step protobuf) new actions = .ok (events, client)) (short : events.length < 2 ^ 64) :
    (∀ index res, .returned index (some res) ∈ events.flatten →
        client.Numbered index res.id ∧ .stored index res ∈ events.flatten) ∧
      ∀ first second res other, .returned first (some res) ∈ events.flatten →
        .returned second (some other) ∈ events.flatten → res.id = other.id → first = second := by
  have kept := run_outputs_of_meets (step protobuf) (fun _ _ => True)
    (fun past state => past.length < 2 ^ 64 →
      Answers past.flatten state ∧ state.Distinct ∧ state.sId.toNat ≤ past.length)
    (fun past state action output next before _ stepped room => by
      rw [List.length_append, List.length_singleton] at room ⊢
      obtain ⟨answers, distinct, bound⟩ := before (by omega)
      obtain ⟨still, limit⟩ := distinct.stepped (by omega) stepped
      rw [List.flatten_append, List.flatten_singleton]
      exact ⟨answers.stepped distinct.named stepped, still, by omega⟩)
    [] new client actions events (fun _ => ⟨new_answers, new_distinct, Nat.le_refl 0⟩) (fun _ _ => trivial) returned
  rw [List.nil_append] at kept
  obtain ⟨answers, distinct, -⟩ := kept short
  refine ⟨answers.returned, fun first second res other member1 member2 same => ?_⟩
  obtain ⟨call, found1, -, own1, nonzero⟩ := (answers.returned first res member1).1
  obtain ⟨next, found2, -, own2, -⟩ := (answers.returned second other member2).1
  exact distinct.unique first second call next found1 found2 (own1.trans (same.trans own2.symm)) (own1 ▸ nonzero)

/-- The package of the answer. -/
def sampleAnswer : Package :=
  packageOf Message.zero.head (([8, 1, 18, 2, 8, 42] : List Nat).map toByte) (by decide)

/-- One call of `add` with its answer. -/
def answeredCall : List Action :=
  [.connect, .onConnection true, .call (bytes "add") [[toByte 8, toByte 21], [toByte 8, toByte 21]] Message.zero.head,
    .advance 0, .advance 0, .advance 0,
    .onMessage sampleAnswer, .deliver, .deliver, .advance 0, .advance 0]

set_option maxRecDepth 20000 in
/-- The call returns its answer. -/
theorem run_answers_own_answered :
    ∃ events client, run (step sample) new answeredCall = .ok (events, client) ∧
      .returned 0 (some ⟨1, [toByte 8, toByte 42], none⟩) ∈ events.flatten ∧
      (∀ index res, .returned index (some res) ∈ events.flatten →
          client.Numbered index res.id ∧ .stored index res ∈ events.flatten) ∧
        ∀ first second res other, .returned first (some res) ∈ events.flatten →
          .returned second (some other) ∈ events.flatten → res.id = other.id → first = second :=
  ⟨_, _, rfl, by simp, run_answers_own sample answeredCall _ _ rfl (by decide)⟩

end MySkipList.Protorpc.Client
