import MySkipList.Proof.Server.Memory
import MySkipList.Proof.SkipList.Release
import MySkipList.Specification.KeyedStore

namespace MySkipList

open Foundation

/-- The bytes that the server sends for a command; the removal of a key sends nothing. -/
def Server.serve (server : Server) : Deed → Exec (Str × Server)
  | .command command => do
      let (response, server) ← server.handle command.request
      pure (response.writes.flatten, server)
  | .erase key => do
      let server ← server.eraseKey key
      pure ([], server)

/-- A server that has started and got its maximum. -/
def Server.start (maxMemory : Int) : Server := { Server.new with configs := ⟨maxMemory⟩ }

/-- A removed set is releasable, and a counted set has fewer than 2 ^ 31 members. -/
def Server.Servable (server : Server) : Deed → Prop
  | .command command => command.call = .length → ∀ list, server.map.lookup command.key = some list →
      list.lruCache.cache.size < 2 ^ 31
  | .erase key => ∀ list, server.map.lookup key = some list → list.Releasable

/-- The command of a deed evicts no member of 16 bytes or more. -/
def Server.ServesShort (server : Server) : Deed → Prop
  | .command command => ∀ member ∈ server.evictedBy command.request, member.length < 16
  | .erase _ => True

instance (server : Server) : (deed : Deed) → Decidable (server.ServesShort deed)
  | .command _ => inferInstanceAs (Decidable (∀ member ∈ _, _))
  | .erase _ => inferInstanceAs (Decidable True)

/-- The shapes of the whole commands. -/
theorem Request.call_cases {request : Request} {key : Str} {call : Call} (whole : request.call = some (key, call)) :
    (∃ text member score, verb request.cmd = .zadd ∧ request.args = [key, text, member] ∧ stoi text = some score ∧
        call = .insertElement member score request.draws) ∨
      (∃ member, verb request.cmd = .zscore ∧ request.args = [key, member] ∧ call = .searchElement member) ∨
      (∃ member, verb request.cmd = .zrem ∧ request.args = [key, member] ∧ call = .deleteElement member) ∨
      (verb request.cmd = .zcard ∧ request.args = [key] ∧ call = .length) := by
  unfold Request.call at whole
  split at whole
  case h_1 name text member action args =>
    obtain ⟨score, read, same⟩ := Option.map_eq_some_iff.mp whole
    obtain ⟨rfl, rfl⟩ := Prod.mk.inj same
    exact Or.inl ⟨text, member, score, action, args, read, rfl⟩
  case h_2 name member action args =>
    obtain ⟨rfl, rfl⟩ := Prod.mk.inj (Option.some.inj whole)
    exact Or.inr (Or.inl ⟨member, action, args, rfl⟩)
  case h_3 name member action args =>
    obtain ⟨rfl, rfl⟩ := Prod.mk.inj (Option.some.inj whole)
    exact Or.inr (Or.inr (Or.inl ⟨member, action, args, rfl⟩))
  case h_4 name action args =>
    obtain ⟨rfl, rfl⟩ := Prod.mk.inj (Option.some.inj whole)
    exact Or.inr (Or.inr (Or.inr ⟨action, args, rfl⟩))
  case h_5 => simp at whole

namespace Server
variable {server : Server} {request : Request} {key : Str} {call : Call}

/-- A whole command is a set command on its key. -/
theorem handle_whole (whole : request.call = some (key, call)) :
    server.handle request = server.zset (verb request.cmd) request ∧ argument request.args 0 = .ok key := by
  rcases Request.call_cases whole with ⟨text, member, score, action, args, _, _⟩ | ⟨member, action, args, _⟩ |
    ⟨member, action, args, _⟩ | ⟨action, args, _⟩
  all_goals
    rw [handle, action, args]
    exact ⟨rfl, rfl⟩

/-- On a set that exists, a whole command sends the answer of its call. -/
theorem dispatch_whole (whole : request.call = some (key, call)) {list next : SkipList Str CInt} {value : Answer}
    (invoked : list.invoke call = .ok (value, next)) :
    ∃ response, dispatch (verb request.cmd) request.args request.draws list = .ok (response, next) ∧
      response.writes.flatten = value.reply := by
  rcases Request.call_cases whole with ⟨text, member, score, action, args, read, rfl⟩ | ⟨member, action, args, rfl⟩ |
    ⟨member, action, args, rfl⟩ | ⟨action, args, rfl⟩
  · obtain ⟨⟨result, final⟩, inserted, returned⟩ := (Exec.bind_eq_ok _ _ _).mp invoked
    obtain ⟨rfl, rfl⟩ := Prod.mk.inj (Except.ok.inj returned)
    refine ⟨.number result, ?_, by simp [Response.number, Answer.reply]⟩
    rw [action, args]
    simp [dispatch, argument, number, read, inserted]
  · obtain ⟨⟨result, final⟩, searched, returned⟩ := (Exec.bind_eq_ok _ _ _).mp invoked
    obtain ⟨rfl, rfl⟩ := Prod.mk.inj (Except.ok.inj returned)
    refine ⟨.number result, ?_, by simp [Response.number, Answer.reply]⟩
    rw [action, args]
    show (list.searchElement Subtype.val member >>= fun found => pure (Response.number found.1, found.2)) = _
    rw [searched]
    rfl
  · obtain ⟨⟨result, final⟩, deleted, returned⟩ := (Exec.bind_eq_ok _ _ _).mp invoked
    obtain ⟨rfl, rfl⟩ := Prod.mk.inj (Except.ok.inj returned)
    refine ⟨.number result, ?_, by simp [Response.number, Answer.reply]⟩
    rw [action, args]
    simp [dispatch, argument, deleted]
  · obtain ⟨rfl, rfl⟩ := Prod.mk.inj (Except.ok.inj invoked)
    refine ⟨.number list.lengthOf, ?_, by simp [Response.number, Answer.reply]⟩
    rw [action, args]
    rfl

/-- On a key without a set, a whole command other than `ZADD` answers as on the empty set. -/
theorem missing_whole (whole : request.call = some (key, call)) (other : verb request.cmd ≠ .zadd) (capacity : Int) :
    (missing (verb request.cmd)).writes.flatten = (BoundedSet.invoke Int.ofNat capacity [] call).1.reply ∧
      (BoundedSet.invoke Int.ofNat capacity [] call).2 = [] := by
  rcases Request.call_cases whole with ⟨_, _, _, action, _⟩ | ⟨member, action, _, rfl⟩ | ⟨member, action, _, rfl⟩ |
    ⟨action, _, rfl⟩
  · exact absurd action other
  · rw [action]
    have reply : (missing .zscore).writes.flatten = decimal (-1) ++ [newline] := by decide
    exact ⟨reply, rfl⟩
  · rw [action]
    have reply : (missing .zrem).writes.flatten = decimal 0 ++ [newline] := by decide
    exact ⟨reply, rfl⟩
  · rw [action]
    have reply : (missing .zcard).writes.flatten = decimal 0 ++ [newline] := by decide
    exact ⟨reply, rfl⟩

/-- The server holds the store: each key has a set with the pairs of the key, or it has neither. -/
structure Holds (capacity : Int) (server : Server) (store : Str → List (Str × CInt)) : Prop where
  configured : server.configs.maxMemory = capacity
  sets : ∀ key, (server.map.lookup key = none ∧ store key = []) ∨
    ∃ list, server.map.lookup key = some list ∧ list.Refines capacity (store key)

section Held
variable {capacity : Int} {store : Str → List (Str × CInt)}

theorem start_holds (capacity : Int) : (start capacity).Holds capacity fun _ => [] :=
  ⟨rfl, fun _ => Or.inl ⟨rfl, rfl⟩⟩

/-- The set of one key changes, and the store with it. -/
theorem Holds.insert (holds : server.Holds capacity store) {list : SkipList Str CInt} {pairs : List (Str × CInt)}
    (refines : list.Refines capacity pairs) (key : Str) :
    { server with map := server.map.insert key list }.Holds capacity (Function.update store key pairs) := by
  refine ⟨holds.configured, fun query => ?_⟩
  rw [Dictionary.lookup_insert]
  by_cases same : query = key
  · subst same
    rw [if_pos rfl, Function.update_self]
    exact Or.inr ⟨list, rfl, refines⟩
  · rw [if_neg same, Function.update_of_ne same]
    exact holds.sets query

theorem Holds.remove (holds : server.Holds capacity store) {map : Dictionary Str (SkipList Str CInt)} {key : Str}
    (erased : ∀ query, map.lookup query = if query = key then none else server.map.lookup query) :
    { server with map := map }.Holds capacity (Function.update store key []) := by
  refine ⟨holds.configured, fun query => ?_⟩
  rw [erased]
  by_cases same : query = key
  · subst same
    rw [if_pos rfl, Function.update_self]
    exact Or.inl ⟨rfl, rfl⟩
  · rw [if_neg same, Function.update_of_ne same]
    exact holds.sets query

/-- A small set counts its members, so its calls answer as the calls of the set. -/
theorem invoke_counted {list : SkipList Str CInt} {pairs : List (Str × CInt)} (refines : list.Refines capacity pairs)
    (small : call = .length → pairs.length < 2 ^ 31) :
    ∃ next, list.invoke call = .ok ((BoundedSet.invoke Int.ofNat capacity pairs call).1, next) ∧
      next.Refines capacity (BoundedSet.invoke Int.ofNat capacity pairs call).2 := by
  obtain ⟨next, returned, still⟩ := refines.invoke call
  refine ⟨next, ?_, ?_⟩
  · rw [returned]
    cases call with
    | length =>
        simp only [BoundedSet.invoke, signedCount_small (small rfl)]
        rfl
    | insertElement ele score draws => rfl
    | deleteElement ele => rfl
    | searchElement ele => rfl
    | save => rfl
  · cases call <;> exact still

/-- A whole command on a set that exists. -/
theorem Holds.access (holds : server.Holds capacity store) (whole : request.call = some (key, call))
    {list : SkipList Str CInt} {pairs : List (Str × CInt)} (refines : list.Refines capacity pairs)
    (small : call = .length → pairs.length < 2 ^ 31) :
    ∃ response next, server.access (verb request.cmd) request key list = .ok (response, next) ∧
      response.writes.flatten = (BoundedSet.invoke Int.ofNat capacity pairs call).1.reply ∧
      next.Holds capacity (Function.update store key (BoundedSet.invoke Int.ofNat capacity pairs call).2) := by
  obtain ⟨final, invoked, still⟩ := invoke_counted refines small
  obtain ⟨response, dispatched, reply⟩ := dispatch_whole whole invoked
  refine ⟨response, _, ?_, reply, holds.insert still key⟩
  rw [Server.access, dispatched]
  rfl

/-- A command for a new member evicts what the full set of the store gives up, and any other one evicts nothing. -/
theorem Holds.evictedBy_eq (holds : server.Holds capacity store) {ele : Str} {score : CInt} {draws : List Nat}
    (whole : request.call = some (key, .insertElement ele score draws)) :
    server.evictedBy request =
      if ele ∈ (store key).map Prod.fst then [] else overflow capacity (store key) := by
  rw [evictedBy, whole]
  dsimp only
  rcases holds.sets key with ⟨absent, empty⟩ | ⟨list, found, refines⟩
  · simp [absent, empty, overflow]
  · rw [found]
    refine (refines.evicted_insertElement ele score draws).trans ?_
    congr

/-- Every whole command is answered as the store answers it. -/
theorem Holds.command (holds : server.Holds capacity store) (accepted : 0 ≤ capacity) (sent : Command)
    (servable : server.Servable (.command sent)) :
    ∃ next, server.serve (.command sent) = .ok ((KeyedStore.step capacity store (.command sent)).1, next) ∧
      next.Holds capacity (KeyedStore.step capacity store (.command sent)).2 := by
  obtain ⟨request, key, call, whole⟩ := sent
  obtain ⟨handled, named⟩ := handle_whole whole
  suffices ∃ response next, server.zset (verb request.cmd) request = .ok (response, next) ∧
      response.writes.flatten = (BoundedSet.invoke Int.ofNat capacity (store key) call).1.reply ∧
      next.Holds capacity (Function.update store key (BoundedSet.invoke Int.ofNat capacity (store key) call).2) by
    obtain ⟨response, next, returned, reply, still⟩ := this
    refine ⟨next, ?_, still⟩
    rw [Server.serve, handled, returned, Exec.ok_bind]
    exact congrArg (fun text => Except.ok (text, next)) reply
  rw [zset, named, Exec.ok_bind]
  rcases holds.sets key with ⟨absent, empty⟩ | ⟨list, found, refines⟩
  · rw [absent, empty]
    dsimp only
    split
    · obtain ⟨list, constructed, fresh⟩ := SkipList.new_refines (K := Str) maxLevel (by decide) capacity accepted
        request.uninitialized
      rw [holds.configured, constructed, Exec.ok_bind]
      obtain ⟨response, next, returned, reply, still⟩ := (holds.insert fresh key).access whole fresh (by simp)
      rw [Function.update_idem] at still
      exact ⟨response, next, returned, reply, still⟩
    · rename_i other
      obtain ⟨reply, unchanged⟩ := missing_whole whole other capacity
      refine ⟨_, server, rfl, reply, ?_⟩
      rw [unchanged, ← empty, Function.update_eq_self]
      exact holds
  · rw [found]
    refine holds.access whole refines fun counts => ?_
    rw [← refines.cache_size]
    exact servable counts list found

theorem Holds.erase (holds : server.Holds capacity store) (key : Str) (servable : server.Servable (.erase key)) :
    ∃ next, server.serve (.erase key) = .ok ((KeyedStore.step capacity store (.erase key)).1, next) ∧
      next.Holds capacity (KeyedStore.step capacity store (.erase key)).2 := by
  obtain ⟨next, erased⟩ : ∃ next, server.eraseKey key = .ok next := by
    unfold eraseKey
    rcases holds.sets key with ⟨absent, _⟩ | ⟨list, found, head, towers, view, shown, _⟩
    · rw [absent]
      exact ⟨server, rfl⟩
    · obtain ⟨heap, destroyed⟩ := shown.destroy_returns_iff.mpr (servable list found)
      refine ⟨{ server with map := server.map.erase key }, ?_⟩
      rw [found]
      simp [destroyed]
  obtain ⟨map, rfl, stored⟩ := eraseKey_stored erased
  refine ⟨_, ?_, holds.remove stored⟩
  rw [Server.serve, erased]
  rfl

end Held

/-- Every run of whole commands and removals replies as the store replies, as long as every removed set is releasable,
every counted set has fewer than 2 ^ 31 members and no member of 16 bytes or more is evicted. A command that evicts such
a member reads its key from released memory and may do anything. The replies on one key are those of one bounded set on
the deeds of this key. -/
theorem serve_refines (undefined : Server → Deed → Exec (Str × Server)) (capacity : Int) (accepted : 0 ≤ capacity)
    (deeds : List Deed)
    (meets : Meets (guarded ServesShort undefined serve)
      (fun server deed => server.Servable deed ∧ server.ServesShort deed) (start capacity) deeds) :
    ∃ replies final, run (guarded ServesShort undefined serve) (start capacity) deeds = .ok (replies, final) ∧
      replies = (abstractRun (KeyedStore.step capacity) (fun _ => []) deeds).1 ∧
      ∀ key, outputsAt Deed.key key deeds replies =
        (abstractRun (KeyedStore.serve capacity) [] (deeds.filter fun deed => deed.key = key)).1 := by
  obtain ⟨same, servable⟩ := run_guarded (fun _ _ both => both.2) meets
  obtain ⟨final, returned, _⟩ := run_simulation_of_meets serve (KeyedStore.step capacity) _ (Holds capacity)
    (fun server store deed holds both => by
      cases deed with
      | command sent => exact holds.command accepted sent both.1
      | erase key => exact holds.erase key both.1)
    (start capacity) (fun _ => []) deeds (start_holds capacity) servable
  exact ⟨_, final, same.trans returned, rfl,
    fun key => outputsAt_keyedStep Deed.key (KeyedStore.serve capacity) _ key deeds⟩

theorem of_found {found : Option (SkipList Str CInt)} {known : SkipList Str CInt} {Good : SkipList Str CInt → Prop}
    (same : found = some known) (good : Good known) : ∀ list, found = some list → Good list := by
  rintro list rfl
  exact Option.some.inj same ▸ good

/-- Four commands on the key `k`. -/
def addMember : Deed :=
  .command ⟨plain "ZADD k 1 a", bytes "k", .insertElement (bytes "a") ⟨1, by decide⟩ [], rfl⟩

def addSmaller : Deed :=
  .command ⟨plain "ZADD k -3 b", bytes "k", .insertElement (bytes "b") ⟨-3, by decide⟩ [], rfl⟩

def removeMember : Deed := .command ⟨plain "ZREM k a", bytes "k", .deleteElement (bytes "a"), rfl⟩

def countMembers : Deed := .command ⟨plain "ZCARD k", bytes "k", .length, rfl⟩

/-- The second member evicts the first one, and the key is removed and used again. -/
theorem serve_refines_recreated :
    ∃ replies final, run (guarded ServesShort (fun _ _ => .error .danglingPointer) serve) (start 1)
        [addMember, addSmaller, countMembers, .erase (bytes "k"), countMembers] = .ok (replies, final) ∧
      replies = (abstractRun (KeyedStore.step 1) (fun _ => [])
        [addMember, addSmaller, countMembers, .erase (bytes "k"), countMembers]).1 ∧
      ∀ key, outputsAt Deed.key key [addMember, addSmaller, countMembers, .erase (bytes "k"), countMembers] replies =
        (abstractRun (KeyedStore.serve 1) [] ([addMember, addSmaller, countMembers, .erase (bytes "k"),
          countMembers].filter fun deed => deed.key = key)).1 := by
  apply serve_refines (fun _ _ => .error .danglingPointer) 1 (by decide)
  refine .cons ⟨?_, by decide⟩ rfl (.cons ⟨?_, by decide⟩ rfl (.cons ⟨?_, by decide⟩ rfl
    (.cons ⟨?_, by decide⟩ rfl (.cons ⟨?_, by decide⟩ rfl .nil))))
  · intro counts
    simp at counts
  · intro counts
    simp at counts
  · have small : (1 : Nat) < 2 ^ 31 := by decide
    exact fun _ => of_found rfl small
  · exact of_found rfl ⟨[2], ⟨rfl, _, rfl, rfl⟩, by decide, by decide⟩
  · intro _ list found
    have empty : (∅ : Dictionary Str (SkipList Str CInt)).lookup (bytes "k") = some list := found
    simp at empty

/-- The removal of a key whose only member was removed releases the header twice. -/
theorem erase_of_emptied_set :
    run serve (start 0) [addMember, removeMember, .erase (bytes "k"), countMembers] = .error .doubleFree ∧
      (abstractRun (KeyedStore.step 0) (fun _ => []) [addMember, removeMember, .erase (bytes "k"), countMembers]).1 =
        [bytes "1\n", bytes "1\n", [], bytes "0\n"] := by
  exact ⟨rfl, by decide⟩

end Server

end MySkipList
