import MySkipList.Proof.Schedule
import MySkipList.Proof.Server.Soundness
import MySkipList.Proof.SkipList.Lazy
import MySkipList.Proof.SkipList.Release
import MySkipList.Specification.Database

namespace MySkipList

open Foundation

/-- What the clients and the disk see of a response. -/
def Response.observe (response : Response) : Observation := ⟨response.writes, {file | file ∈ response.files}⟩

@[simp] theorem Response.observe_silent : Response.silent.observe = .silent := by
  simp [observe, silent, Observation.silent]

@[simp] theorem Response.observe_text (line : Str) (count : Nat) :
    (Response.text line count).observe = .text (line.take count) := by
  simp [observe, text, Observation.text]

@[simp] theorem Response.observe_number (value : Int) : (Response.number value).observe = .number value := by
  simp [observe, number, Observation.number]

namespace SkipList
variable {K V : Type} [LinearOrder K] [LinearOrder V] {list : SkipList K V} {set : LazySet K V}

theorem Realizes.insertElement (realizes : list.Realizes set) (ele : K) (score : V) (draws : List Nat) :
    ∃ next, list.insertElement ele score draws = .ok ((set.insertElement ele score).1, next) ∧
      next.Realizes (set.insertElement ele score).2 :=
  realizes.operate (fun _ => 0) (.insertElement ele score draws)

theorem Realizes.deleteElement (realizes : list.Realizes set) (ele : K) :
    ∃ next, list.deleteElement ele = .ok ((set.deleteElement ele).1, next) ∧
      next.Realizes (set.deleteElement ele).2 :=
  realizes.operate (fun _ => 0) (.deleteElement ele)

theorem Realizes.searchElement (realizes : list.Realizes set) (toInt : V → Int) (ele : K) :
    ∃ next, list.searchElement toInt ele = .ok ((set.searchElement toInt ele).1, next) ∧
      next.Realizes (set.searchElement toInt ele).2 :=
  realizes.operate toInt (.searchElement ele)

theorem Realizes.setMaxMemory (realizes : list.Realizes set) (maxMemory : Int) :
    ∃ next, list.setMaxMemory maxMemory = .ok (0, next) ∧ next.Realizes (set.setMaxMemory maxMemory) :=
  realizes.operate (fun _ => 0) (.setMaxMemory maxMemory)

theorem Realizes.save {list : SkipList Str CInt} {set : LazySet Str CInt} (realizes : list.Realizes set) :
    list.save = .ok (Database.dump set) := by
  rw [SkipList.save, realizes.members]
  rfl

theorem Realizes.displayList (realizes : list.Realizes set) : ∃ printed, list.displayList = .ok printed := by
  obtain ⟨head, towers, view, shown, _⟩ := realizes
  exact shown.represents.displayList

/-- The loop of the destructor stops only at a node that it has released. -/
theorem releaseNodes_fault {K V : Type} {heap : Heap (SkipListNode K V)} {start : Option Ref} {fuel : Nat} {fault : Fault}
    (enough : heap.live.card < fuel) (stopped : releaseNodes fuel start heap = .error fault) :
    fault = .danglingPointer := by
  induction fuel generalizing heap start with
  | zero => simp at enough
  | succ fuel ih =>
      cases start with
      | none => cases stopped
      | some curr =>
          cases found : heap.cells curr with
          | none =>
              have read : heap.read curr = .error .danglingPointer := by simp [Heap.read, found]
              rw [releaseNodes, read] at stopped
              exact (Except.error.inj stopped).symm
          | some node =>
              rw [releaseNodes, Heap.read_of_live found, Exec.ok_bind, Heap.free_of_live found, Exec.ok_bind] at stopped
              refine ih ?_ stopped
              have member : curr ∈ heap.live := Heap.mem_live.mpr ⟨node, found⟩
              have fewer := Finset.card_erase_add_one member
              rw [Heap.live_discard]
              omega

/-- The destructor stops at a released node or at a header that it releases twice. -/
theorem destroy_fault {K V : Type} {list : SkipList K V} {fault : Fault} (stopped : list.destroy = .error fault) :
    fault = .danglingPointer ∨ fault = .doubleFree := by
  have enough : list.heap.live.card < list.turns := by
    have bound : list.heap.live.card ≤ list.heap.next := by
      have inside := Finset.card_filter_le (Finset.range list.heap.next) fun ref => (list.heap.cells ref).isSome
      rwa [Finset.card_range] at inside
    exact Nat.lt_succ_of_le bound
  unfold SkipList.destroy at stopped
  cases released : releaseNodes list.turns list.tail list.heap with
  | error other =>
      rw [released] at stopped
      exact Or.inl ((Except.error.inj stopped).symm.trans (releaseNodes_fault enough released))
  | ok heap =>
      rw [released, Exec.ok_bind, Heap.free] at stopped
      split at stopped
      · cases stopped
      · exact Or.inr (Except.error.inj stopped).symm

end SkipList

namespace Server
variable {server : Server} {database : Database}

/-- The server holds the database. -/
structure Represents (server : Server) (database : Database) : Prop where
  sets : ∀ key, (server.map.lookup key = none ∧ database.sets key = none) ∨
    ∃ list set, server.map.lookup key = some list ∧ database.sets key = some set ∧ list.Realizes set
  pending : server.timer.Shows database.pending
  maxMemory : server.configs.maxMemory = database.maxMemory
  stopServer : server.stopServer = database.stopServer
  timeout : server.timeout = database.timeout
  updateConfig : server.updateConfig = database.updateConfig
  control : server.control = database.control

theorem new_represents : Server.new.Represents Database.new where
  sets _ := Or.inl ⟨rfl, rfl⟩
  pending := Timer.new_owns.shows
  maxMemory := rfl
  stopServer := rfl
  timeout := rfl
  updateConfig := rfl
  control := rfl

/-- The observations agree, and the server after the step holds the database after it. -/
def Matches (result : Response × Server) (answer : Observation × Database) : Prop :=
  result.1.observe = answer.1 ∧ result.2.Represents answer.2

/-- The usage lines leave the server as the database states them. -/
theorem usage_observe (action : Verb) (setCommand : action ≠ .config) (timeless : action ≠ .expire) :
    (usage action).observe = .text (Database.usage action) := by
  cases action with
  | config => exact absurd rfl setCommand
  | expire => exact absurd rfl timeless
  | _ => exact (Response.observe_text _ _).trans rfl

theorem missing_observe (action : Verb) : (missing action).observe = .text (Database.missing action) := by
  cases action <;> exact (Response.observe_text _ _).trans rfl

/-- A set command on a set that exists answers as the set does. -/
theorem dispatch_agrees {list : SkipList Str CInt} {set : LazySet Str CInt} (realizes : list.Realizes set)
    (action : Verb) (setCommand : action ≠ .config) (timeless : action ≠ .expire) (args : List Str) (draws : List Nat) :
    Exec.Agrees (fun result answer => result.1.observe = answer.1 ∧ result.2.Realizes answer.2)
      (dispatch action args draws list) (Database.serve action args set) := by
  have rejected {other : Exec (Observation × LazySet Str CInt)} (same : other = .ok (.text (Database.usage action), set)) :
      Exec.Agrees (fun result answer => result.1.observe = answer.1 ∧ result.2.Realizes answer.2)
        (.ok (usage action, list)) other := by
    rw [same]
    exact .returned ⟨usage_observe action setCommand timeless, realizes⟩
  cases action with
  | zadd =>
      rcases args with _ | ⟨key, _ | ⟨text, _ | ⟨member, _ | ⟨extra, rest⟩⟩⟩⟩
      · exact rejected rfl
      · exact rejected rfl
      · exact rejected rfl
      · refine Exec.Agrees.bind_same (number text) fun score _ => ?_
        obtain ⟨next, returned, still⟩ := realizes.insertElement member score draws
        rw [returned]
        exact .returned ⟨Response.observe_number _, still⟩
      · exact rejected rfl
  | zscore =>
      rcases args with _ | ⟨key, _ | ⟨member, _ | ⟨extra, rest⟩⟩⟩
      · exact rejected rfl
      · exact rejected rfl
      · obtain ⟨next, returned, still⟩ := realizes.searchElement Subtype.val member
        have found : dispatch .zscore [key, member] draws list =
            .ok (.number (set.searchElement Subtype.val member).1, next) := by
          show (list.searchElement Subtype.val member >>= fun found => pure (Response.number found.1, found.2)) = _
          rw [returned]
          rfl
        rw [found]
        exact .returned ⟨Response.observe_number _, still⟩
      · exact rejected rfl
  | zrem =>
      rcases args with _ | ⟨key, _ | ⟨member, _ | ⟨extra, rest⟩⟩⟩
      · exact rejected rfl
      · exact rejected rfl
      · obtain ⟨next, returned, still⟩ := realizes.deleteElement member
        have deleted : dispatch .zrem [key, member] draws list = .ok (.number (set.deleteElement member).1, next) := by
          show (list.deleteElement member >>= fun found => pure (Response.number found.1, found.2)) = _
          rw [returned]
          rfl
        rw [deleted]
        exact .returned ⟨Response.observe_number _, still⟩
      · exact rejected rfl
  | zcard =>
      rcases args with _ | ⟨key, _ | ⟨extra, rest⟩⟩
      · exact rejected rfl
      · refine .returned ⟨?_, realizes⟩
        rw [Response.observe_number, realizes.lengthOf]
      · exact rejected rfl
  | zdis =>
      rcases args with _ | ⟨key, _ | ⟨extra, rest⟩⟩
      · exact rejected rfl
      · obtain ⟨printed, displayed⟩ := realizes.displayList
        have shown : dispatch .zdis [key] draws list = .ok (.text (bytes "1\n") 2, list) := by
          simp [dispatch, displayed]
        rw [shown]
        exact .returned ⟨(Response.observe_text _ _).trans rfl, realizes⟩
      · exact rejected rfl
  | config => exact absurd rfl setCommand
  | expire => exact absurd rfl timeless
  | _ => exact rejected (by rcases args with _ | ⟨key, _ | ⟨text, _ | ⟨member, _ | ⟨extra, rest⟩⟩⟩⟩ <;> rfl)

/-- `SAVE` writes one file for each set whose file opens. -/
theorem Represents.saveAll (represents : server.Represents database) (opens : Str → Bool) (keys : List Str) :
    ∃ files, Server.saveAll opens server.map keys = .ok files ∧ ∀ file, file ∈ files ↔
      ∃ key ∈ keys, ∃ set, database.sets key = some set ∧ opens (fileName key) = true ∧
        file = (fileName key, Database.dump set) := by
  induction keys with
  | nil => exact ⟨[], rfl, by simp⟩
  | cons key rest ih =>
      obtain ⟨files, saved, written⟩ := ih
      rw [Server.saveAll]
      rcases represents.sets key with ⟨absent, unset⟩ | ⟨list, set, found, held, realizes⟩
      · rw [absent]
        exact ⟨files, saved, fun file => by simp [written, unset]⟩
      · rw [found]
        by_cases opened : opens (fileName key)
        · refine ⟨(fileName key, Database.dump set) :: files, by simp [opened, realizes.save, saved], fun file => ?_⟩
          simp [written, held, opened]
        · exact ⟨files, by simp [opened, saved], fun file => by simp [written, opened]⟩

theorem Represents.save (represents : server.Represents database) (request : Request) :
    Exec.Agrees Matches (server.save request)
      (.ok (⟨[bytes "OK\n"], database.saved request.opens⟩, database)) := by
  obtain ⟨files, saved, written⟩ := represents.saveAll request.opens server.map.keys
  rw [Server.save, saved]
  refine .returned ⟨?_, represents⟩
  have listed : {file | file ∈ files} = database.saved request.opens := by
    ext file
    rw [Set.mem_ofPred_eq, written, Database.saved, Set.mem_ofPred_eq]
    constructor
    · rintro ⟨key, _, set, facts⟩
      exact ⟨key, set, facts⟩
    · rintro ⟨key, set, held, facts⟩
      refine ⟨key, ?_, set, held, facts⟩
      rcases represents.sets key with ⟨_, unset⟩ | ⟨list, _, found, _⟩
      · cases unset.symm.trans held
      · exact (Dictionary.mem_keys_iff server.map key).mpr ⟨list, found⟩
  exact congrArg₂ Observation.mk rfl listed

theorem Represents.config (represents : server.Represents database) (args : List Str) :
    Exec.Agrees Matches (server.config args) (database.config args) := by
  have updated : { server with updateConfig := true }.Represents { database with updateConfig := true } :=
    ⟨represents.sets, represents.pending, represents.maxMemory, represents.stopServer, represents.timeout, rfl,
      represents.control⟩
  have rejected : Exec.Agrees Matches (.ok (.text (bytes "Usage: CONFIG SET maxmemory [number]\n") 36, server))
      (.ok (.text (Database.usage .config), database)) :=
    .returned ⟨(Response.observe_text _ _).trans rfl, represents⟩
  rcases args with _ | ⟨first, _ | ⟨name, _ | ⟨text, _ | ⟨extra, rest⟩⟩⟩⟩
  · exact rejected
  · exact rejected
  · exact rejected
  · rw [config_of_three, Database.config]
    split
    · split
      · refine Exec.Agrees.bind_same (number text) fun value _ => ?_
        rw [Configs.setMaxMemory]
        split
        · exact .returned ⟨Response.observe_number 1, updated⟩
        · exact .returned ⟨Response.observe_number 0, represents.sets, represents.pending, rfl, represents.stopServer,
            represents.timeout, rfl, represents.control⟩
      · exact .returned ⟨Response.observe_silent, updated⟩
    · exact .returned ⟨Response.observe_silent, represents⟩
  · exact rejected

theorem Represents.expire (represents : server.Represents database) (now : Int) (args : List Str) :
    Exec.Agrees Matches (server.expire args now) (database.expire now args) := by
  have rejected : Exec.Agrees Matches (.ok (.text (bytes "Usage: EXPIRE key seconds\n") 26, server))
      (.ok (.text (Database.usage .expire), database)) :=
    .returned ⟨(Response.observe_text _ _).trans rfl, represents⟩
  rcases args with _ | ⟨key, _ | ⟨text, _ | ⟨extra, rest⟩⟩⟩
  · exact rejected
  · exact rejected
  · refine Exec.Agrees.bind_same (number text) fun seconds _ => ?_
    obtain ⟨timer, pushed, still⟩ := represents.pending.push key seconds.val now
    rw [pushed]
    exact .returned ⟨Response.observe_number 1, represents.sets, still, represents.maxMemory, represents.stopServer,
      represents.timeout, represents.updateConfig, represents.control⟩
  · exact rejected

/-- The set of one key changes. -/
theorem Represents.store (represents : server.Represents database) {list : SkipList Str CInt} {set : LazySet Str CInt}
    (realizes : list.Realizes set) (key : Str) :
    { server with map := server.map.insert key list }.Represents
      { database with sets := Function.update database.sets key (some set) } := by
  refine ⟨fun query => ?_, represents.pending, represents.maxMemory, represents.stopServer, represents.timeout,
    represents.updateConfig, represents.control⟩
  dsimp only
  rw [Dictionary.lookup_insert]
  by_cases chosen : query = key
  · subst chosen
    rw [if_pos rfl, Function.update_self]
    exact Or.inr ⟨list, set, rfl, rfl, realizes⟩
  · rw [if_neg chosen, Function.update_of_ne chosen]
    exact represents.sets query

theorem Represents.access (represents : server.Represents database) (request : Request) {action : Verb}
    (setCommand : action ≠ .config) (timeless : action ≠ .expire) (key : Str) {list : SkipList Str CInt}
    {set : LazySet Str CInt} (realizes : list.Realizes set) :
    Exec.Agrees Matches (server.access action request key list) (do
      let (observation, set) ← Database.serve action request.args set
      pure (observation, { database with sets := Function.update database.sets key (some set) })) := by
  refine (dispatch_agrees realizes action setCommand timeless request.args request.draws).bind ?_
  rintro ⟨response, next⟩ ⟨observation, after⟩ ⟨same, still⟩
  exact .returned ⟨same, represents.store still key⟩

theorem Represents.zset (represents : server.Represents database) (request : Request) {action : Verb}
    (setCommand : action ≠ .config) (timeless : action ≠ .expire) :
    Exec.Agrees Matches (server.zset action request) (database.zset action request.args) := by
  cases args : request.args with
  | nil =>
      have undefined : server.zset action request = .error .outOfBounds := by simp [Server.zset, args, argument]
      rw [undefined]
      exact .stopped _
  | cons key rest =>
      have named : argument request.args 0 = .ok key := by simp [argument, args]
      rw [Server.zset, named, Exec.ok_bind, Database.zset, Database.located, ← args]
      rcases represents.sets key with ⟨absent, unset⟩ | ⟨list, set, found, held, realizes⟩
      · rw [absent, unset]
        dsimp only
        split
        · obtain ⟨list, constructed, fresh⟩ := SkipList.new_realizes (K := Str) maxLevel (by decide)
            server.configs.maxMemory request.uninitialized
          rw [represents.maxMemory] at fresh
          rw [constructed, Exec.ok_bind]
          have created := (represents.store fresh key).access request setCommand timeless key fresh
          simpa only [Function.update_idem] using created
        · exact .returned ⟨missing_observe action, represents⟩
      · rw [found, held]
        exact represents.access request setCommand timeless key realizes

/-- Every command agrees with the command of the database, faults included. -/
theorem Represents.handle (represents : server.Represents database) (request : Request) :
    Exec.Agrees Matches (server.handle request) (database.handle request) := by
  unfold Server.handle Database.handle
  cases verb request.cmd with
  | exit =>
      exact .returned ⟨Response.observe_silent, represents.sets, represents.pending, represents.maxMemory, rfl,
        represents.timeout, represents.updateConfig, rfl⟩
  | save => exact represents.save request
  | config => exact represents.config request.args
  | expire => exact represents.expire request.now request.args
  | _ => exact represents.zset request (by decide) (by decide)

theorem Represents.signals (represents : server.Represents database) (received : List Signal) :
    (received.foldl signal server).Represents (database.receive received) := by
  induction received generalizing server database with
  | nil => simpa [Database.receive] using represents
  | cons first rest ih =>
      have one : (signal server first).Represents (database.receive [first]) := by
        obtain ⟨sets, pending, maxMemory, stopServer, timeout, updateConfig, control⟩ := represents
        cases first <;> exact ⟨sets, pending, maxMemory, by simp [signal, Database.receive, stopServer],
          by simp [signal, Database.receive, timeout], updateConfig, control⟩
      have both : (database.receive [first]).receive rest = database.receive (first :: rest) := by
        simp [Database.receive, Bool.or_assoc]
      rw [List.foldl_cons, ← both]
      exact ih one

theorem Represents.process (represents : server.Represents database) (event : Event) :
    Exec.Agrees Matches (server.process event) (database.process event) := by
  cases event with
  | accept => exact .returned ⟨Response.observe_silent, represents⟩
  | signals received => exact .returned ⟨Response.observe_silent, represents.signals received⟩
  | closed => exact .returned ⟨Response.observe_silent, represents⟩
  | receive request => exact represents.handle request

/-- The removal of keys stops only in a destructor. -/
theorem eraseKeys_fault {keys : List Str} {fault : Fault} (stopped : eraseKeys keys server = .error fault) :
    fault = .danglingPointer ∨ fault = .doubleFree := by
  induction keys generalizing server with
  | nil => cases stopped
  | cons key rest ih =>
      rw [eraseKeys] at stopped
      cases erased : server.eraseKey key with
      | ok next =>
          rw [erased, Exec.ok_bind] at stopped
          exact ih stopped
      | error other =>
          rw [erased] at stopped
          obtain rfl := Except.error.inj stopped
          unfold eraseKey at erased
          split at erased
          · cases erased
          · rename_i list _
            cases destroyed : list.destroy with
            | ok heap => simp [destroyed] at erased
            | error cause =>
                rw [destroyed] at erased
                obtain rfl := Except.error.inj erased
                exact SkipList.destroy_fault destroyed

/-- The removal of due keys agrees with the database, or a destructor stops it. -/
theorem Represents.removeExpired (represents : server.Represents database) (alarmed : server.timeout = true) (now : Int) :
    (∃ next, server.removeExpired now = .ok next ∧ next.Represents (database.removeExpired now)) ∨
      ∃ fault, server.removeExpired now = .error fault ∧ (fault = .danglingPointer ∨ fault = .doubleFree) := by
  obtain ⟨timer, ticked, still⟩ := represents.pending.tick now
  rw [Server.removeExpired, if_pos alarmed, ticked, Exec.ok_bind]
  dsimp only
  cases erased : eraseKeys ((database.pending.takeWhile (Schedule.due now)).map Prod.fst)
      { server with timer := timer } with
  | error fault => exact Or.inr ⟨fault, rfl, eraseKeys_fault erased⟩
  | ok next =>
      obtain ⟨map, rfl, stored⟩ := eraseKeys_stored erased
      refine Or.inl ⟨_, rfl, fun query => ?_, still, represents.maxMemory, represents.stopServer, rfl,
        represents.updateConfig, represents.control⟩
      rw [Database.removeExpired]
      dsimp only
      rcases stored query with ⟨due, gone⟩ | ⟨kept, same⟩
      · rw [if_pos due]
        exact Or.inl ⟨gone, rfl⟩
      · rw [if_neg kept, same]
        exact represents.sets query

theorem Represents.reconfigure (represents : server.Represents database) (pending : server.updateConfig = true) :
    ∃ next, server.reconfigure = .ok next ∧ next.Represents database.reconfigure := by
  have total : ∃ map, updateMaxMemory server.configs.maxMemory server.map = .ok map := by
    refine Dictionary.updateAll_returns fun key list found => ?_
    rcases represents.sets key with ⟨absent, _⟩ | ⟨other, set, known, _, realizes⟩
    · cases absent.symm.trans found
    · obtain rfl := Option.some.inj (known.symm.trans found)
      obtain ⟨next, returned, _⟩ := realizes.setMaxMemory server.configs.maxMemory
      exact ⟨next, by rw [returned]; rfl⟩
  obtain ⟨map, updated⟩ := total
  refine ⟨{ server with map := map, updateConfig := false }, ?_, fun query => ?_, represents.pending,
    represents.maxMemory, represents.stopServer, represents.timeout, rfl, represents.control⟩
  · rw [Server.reconfigure, if_pos pending, updated]
    rfl
  · rw [Database.reconfigure]
    dsimp only
    rcases Dictionary.updateAll_lookup updated query with ⟨absent, gone⟩ | ⟨list, changed, found, set, stored⟩
    · rcases represents.sets query with ⟨_, unset⟩ | ⟨other, _, known, _⟩
      · exact Or.inl ⟨gone, by rw [unset]; rfl⟩
      · cases absent.symm.trans known
    · rcases represents.sets query with ⟨absent, _⟩ | ⟨other, model, known, held, realizes⟩
      · cases absent.symm.trans found
      · obtain rfl := Option.some.inj (known.symm.trans found)
        obtain ⟨next, returned, still⟩ := realizes.setMaxMemory server.configs.maxMemory
        rw [returned] at set
        obtain rfl := Except.ok.inj set
        exact Or.inr ⟨next, _, stored, by rw [held, ← represents.maxMemory]; rfl, still⟩

/-- A step as the clients and the disk see it. -/
def observe (server : Server) (step : Step) : Exec (Observation × Server) := do
  let (response, server) ← server.step step
  pure (response.observe, server)

/-- Every step agrees with the step of the database, or the destructor of an expired set stops it. -/
theorem Represents.observe (represents : server.Represents database) (step : Step) :
    Exec.Agrees (fun result answer => result.1 = answer.1 ∧ result.2.Represents answer.2) (server.observe step)
        (database.step step) ∨
      ∃ fault, server.observe step = .error fault ∧ (∃ now, step = .removeExpired now) ∧
        (fault = .danglingPointer ∨ fault = .doubleFree) := by
  have seen {other : Exec (Observation × Database)} (agrees : Exec.Agrees Matches (server.step step) other) :
      Exec.Agrees (fun result answer => result.1 = answer.1 ∧ result.2.Represents answer.2) (server.observe step)
        other := by
    rw [Server.observe]
    cases stepped : server.step step with
    | error fault =>
        rw [stepped] at agrees
        cases agrees
        exact .stopped fault
    | ok result =>
        rw [stepped] at agrees
        cases agrees with
        | returned related => exact .returned related
  cases step with
  | event event =>
      refine Or.inl (seen ?_)
      rw [Server.step, Database.step, represents.control]
      split
      · exact represents.process event
      · exact .returned ⟨Response.observe_silent, represents⟩
  | removeExpired now =>
      have idle (kept : server.step (.removeExpired now) = .ok (.silent, server))
          (same : ¬ (database.control ≠ .halted ∧ database.timeout = true)) :
          Exec.Agrees Matches (server.step (.removeExpired now)) (database.step (.removeExpired now)) := by
        rw [kept, Database.step, if_neg same]
        exact .returned ⟨Response.observe_silent, represents⟩
      by_cases halted : server.control = .halted
      · exact Or.inl (seen (idle (by simp [Server.step, halted]) (by simp [← represents.control, halted])))
      by_cases alarmed : server.timeout = true
      · rcases represents.removeExpired alarmed now with ⟨next, removed, still⟩ | ⟨fault, stopped, cause⟩
        · refine Or.inl (seen ?_)
          rw [Server.step, if_neg halted, removed, Database.step, ← represents.control, ← represents.timeout,
            if_pos ⟨halted, alarmed⟩]
          exact .returned ⟨Response.observe_silent, still⟩
        · exact Or.inr ⟨fault, by simp [Server.observe, Server.step, halted, stopped], ⟨now, rfl⟩, cause⟩
      · exact Or.inl (seen (idle (by simp [Server.step, Server.removeExpired, halted, alarmed])
          (by simp [← represents.timeout, alarmed])))
  | reconfigure =>
      refine Or.inl (seen ?_)
      rw [Server.step, Database.step, ← represents.control]
      split
      · exact .returned ⟨Response.observe_silent, represents⟩
      · obtain ⟨next, returned, still⟩ : ∃ next, server.reconfigure = .ok next ∧
            next.Represents (if database.updateConfig then database.reconfigure else database) := by
          rw [← represents.updateConfig]
          by_cases pending : server.updateConfig = true
          · rw [if_pos pending]
            exact represents.reconfigure pending
          · exact ⟨server, by simp [Server.reconfigure, pending], by rwa [if_neg pending]⟩
        rw [returned, Exec.ok_bind]
        refine .returned ⟨Response.observe_silent, still.sets, still.pending, still.maxMemory, still.stopServer,
          still.timeout, still.updateConfig, ?_⟩
        exact congrArg (fun stop : Bool => if stop then Control.halted else Control.processing) still.stopServer

/-- Every run agrees with the run of the database, up to the removal of an expired set whose destructor stops. -/
theorem run_observe (steps : List Step) :
    Exec.Agrees (fun result answer => result.1 = answer.1 ∧ result.2.Represents answer.2) (run observe new steps)
        (run Database.step .new steps) ∨
      ∃ before step after observations server fault, steps = before ++ step :: after ∧
        run observe new before = .ok (observations, server) ∧ server.observe step = .error fault ∧
        (∃ now, step = .removeExpired now) ∧ (fault = .danglingPointer ∨ fault = .doubleFree) :=
  run_agrees_or_stops observe Database.step
    (fun _ step fault => (∃ now, step = .removeExpired now) ∧ (fault = .danglingPointer ∨ fault = .doubleFree))
    Represents (fun _ _ step represents => represents.observe step) new .new steps new_represents

/-- Every run of the event loop shows what the database shows, faults included, up to the removal of an expired set whose
destructor stops. -/
theorem run_shows_database (steps : List Step) :
    (run observe new steps).map Prod.fst = (run Database.step .new steps).map Prod.fst ∨
      ∃ before now after observations server fault, steps = before ++ .removeExpired now :: after ∧
        run observe new before = .ok (observations, server) ∧ server.observe (.removeExpired now) = .error fault ∧
        (fault = .danglingPointer ∨ fault = .doubleFree) := by
  rcases run_observe steps with agrees |
    ⟨before, step, after, observations, server, fault, split, returned, stopped, excused⟩
  · exact Or.inl (agrees.map_eq Prod.fst Prod.fst fun _ _ related => related.1)
  · obtain ⟨⟨now, rfl⟩, cause⟩ := excused
    exact Or.inr ⟨before, now, after, observations, server, fault, split, returned, stopped, cause⟩

end Server

end MySkipList
