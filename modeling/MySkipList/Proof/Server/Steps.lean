import MySkipList.Construction.Server

namespace MySkipList.Server

open Foundation

section Arguments

theorem argument_eq_ok {args : List Str} {index : Nat} {arg : Str} :
    argument args index = .ok arg ↔ args[index]? = some arg := by
  unfold argument
  cases args[index]? <;> simp

theorem number_eq_ok {text : Str} {value : CInt} : number text = .ok value ↔ stoi text = some value := by
  unfold number
  cases stoi text <;> simp

end Arguments

/-- A set is unchanged or the result of one operation. -/
inductive Operated (list : SkipList Str CInt) : SkipList Str CInt → Prop where
  | kept : Operated list list
  | inserted {ele score draws result next} (returned : list.insertElement ele score draws = .ok (result, next)) :
      Operated list next
  | deleted {ele result next} (returned : list.deleteElement ele = .ok (result, next)) : Operated list next
  | searched {ele result next} (returned : list.searchElement Subtype.val ele = .ok (result, next)) :
      Operated list next

/-- The set on which a command works: the set of the key, or a new one of `ZADD`. -/
inductive Located (server : Server) (request : Request) (key : Str) : SkipList Str CInt → Prop where
  | present {list} (found : server.map.lookup key = some list) : Located server request key list
  | created {list} (action : verb request.cmd = .zadd) (absent : server.map.lookup key = none)
      (constructed : SkipList.new maxLevel server.configs.maxMemory request.uninitialized = .ok list) :
      Located server request key list

/-- What one command can do to the server. -/
inductive Handled (server : Server) (request : Request) : Server → Prop where
  | left (action : verb request.cmd = .exit) :
      Handled server request { server with stopServer := true, control := .leaving }
  | kept (action : verb request.cmd ≠ .exit) : Handled server request server
  | configured {configs} (action : verb request.cmd = .config)
      (changed : configs = server.configs ∨ ∃ maxMemory, configs = (server.configs.setMaxMemory maxMemory).2) :
      Handled server request { server with configs := configs, updateConfig := true }
  | expiring {key text seconds result timer} (action : verb request.cmd = .expire)
      (args : request.args = [key, text]) (seconded : stoi text = some seconds)
      (pushed : server.timer.push key seconds.val request.now = .ok (result, timer)) :
      Handled server request { server with timer := timer }
  | accessed {key list final map} (named : request.args.head? = some key)
      (located : Located server request key list) (operated : Operated list final)
      (stored : ∀ query, map.lookup query = if query = key then some final else server.map.lookup query) :
      Handled server request { server with map := map }

/-- The usage texts of the set commands. -/
def usage : Verb → Response
  | .zadd => .text (bytes "Usage: ZADD key score member\n") 29
  | .zscore => .text (bytes "Usage: ZSCORE key member\n") 25
  | .zrem => .text (bytes "Usage: ZREM key member\n") 23
  | .zcard => .text (bytes "Usage: ZCARD key\n") 17
  | .zdis => .text (bytes "Usage: ZDIS key\n") 16
  | _ => .text (bytes
      "Usage: ZADD(zadd) | ZSCORE(zscore) | ZREM(zrem) | ZCARD(zcard) | ZDIS(zdis) | CONFIG(config) | EXPIRE(expire)\n")
      110

/-- What the chain of set commands answers and leaves: a usage text, the result of an operation, the number of
the members, or the confirmation of `ZDIS`. -/
inductive Dispatched (action : Verb) (list : SkipList Str CInt) : Response → SkipList Str CInt → Prop where
  | usage : Dispatched action list (usage action) list
  | inserted {ele score draws result final} (returned : list.insertElement ele score draws = .ok (result, final)) :
      Dispatched action list (.number result) final
  | searched {ele result final} (returned : list.searchElement Subtype.val ele = .ok (result, final)) :
      Dispatched action list (.number result) final
  | deleted {ele result final} (returned : list.deleteElement ele = .ok (result, final)) :
      Dispatched action list (.number result) final
  | counted : Dispatched action list (.number list.lengthOf) list
  | displayed (display : action = .zdis) : Dispatched action list (.text (bytes "1\n") 2) list

/-- What a command answers and leaves. -/
inductive Answered (server : Server) (request : Request) : Response → Server → Prop where
  | left (action : verb request.cmd = .exit) :
      Answered server request .silent { server with stopServer := true, control := .leaving }
  | saved {files} (action : verb request.cmd = .save) :
      Answered server request { Response.text (bytes "OK\n") 3 with files := files } server
  | misconfigured (action : verb request.cmd = .config) (count : request.args.length ≠ 3) :
      Answered server request (.text (bytes "Usage: CONFIG SET maxmemory [number]\n") 36) server
  | configured {first name text value} (action : verb request.cmd = .config) (args : request.args = [first, name, text])
      (sets : first = bytes "SET" ∨ first = bytes "set") (maximum : name = bytes "maxmemory" ∨ name = bytes "MAXMEMORY")
      (read : stoi text = some value) :
      Answered server request (.number (server.configs.setMaxMemory value.val).1)
        { server with configs := (server.configs.setMaxMemory value.val).2, updateConfig := true }
  | unconfigured {first name text next} (action : verb request.cmd = .config) (args : request.args = [first, name, text])
      (other : ¬ ((first = bytes "SET" ∨ first = bytes "set") ∧ (name = bytes "maxmemory" ∨ name = bytes "MAXMEMORY")))
      (kept : next = server ∨ next = { server with updateConfig := true }) : Answered server request .silent next
  | mistimed (action : verb request.cmd = .expire) :
      Answered server request (.text (bytes "Usage: EXPIRE key seconds\n") 26) server
  | timed {key text seconds result timer} (action : verb request.cmd = .expire) (args : request.args = [key, text])
      (read : stoi text = some seconds) (pushed : server.timer.push key seconds.val request.now = .ok (result, timer)) :
      Answered server request (.number result) { server with timer := timer }
  | absent {key} (named : request.args.head? = some key) (unknown : server.map.lookup key = none)
      (other : verb request.cmd ≠ .zadd) (running : verb request.cmd ≠ .exit) (setCommand : verb request.cmd ≠ .config) :
      Answered server request (missing (verb request.cmd)) server
  | accessed {key list final map response} (named : request.args.head? = some key)
      (located : Located server request key list) (setCommand : verb request.cmd ≠ .config)
      (dispatched : Dispatched (verb request.cmd) list response final)
      (stored : ∀ query, map.lookup query = if query = key then some final else server.map.lookup query) :
      Answered server request response { server with map := map }

section Inversion
variable {server next : Server} {request : Request} {response : Response}

theorem dispatch_dispatched {action : Verb} {args : List Str} {draws : List Nat} {list final : SkipList Str CInt}
    (returned : dispatch action args draws list = .ok (response, final)) : Dispatched action list response final := by
  cases action with
  | zadd =>
      rw [dispatch] at returned
      split at returned
      · obtain ⟨rfl, rfl⟩ := Prod.mk.inj (Except.ok.inj returned)
        exact .usage
      · obtain ⟨member, _, returned⟩ := (Exec.bind_eq_ok _ _ _).mp returned
        obtain ⟨text, _, returned⟩ := (Exec.bind_eq_ok _ _ _).mp returned
        obtain ⟨score, _, returned⟩ := (Exec.bind_eq_ok _ _ _).mp returned
        obtain ⟨⟨result, after⟩, inserted, returned⟩ := (Exec.bind_eq_ok _ _ _).mp returned
        obtain ⟨rfl, rfl⟩ := Prod.mk.inj (Except.ok.inj returned)
        exact .inserted inserted
  | zscore =>
      rw [dispatch] at returned
      split at returned
      · obtain ⟨rfl, rfl⟩ := Prod.mk.inj (Except.ok.inj returned)
        exact .usage
      · obtain ⟨member, _, returned⟩ := (Exec.bind_eq_ok _ _ _).mp returned
        obtain ⟨⟨result, after⟩, searched, returned⟩ := (Exec.bind_eq_ok _ _ _).mp returned
        obtain ⟨rfl, rfl⟩ := Prod.mk.inj (Except.ok.inj returned)
        exact .searched searched
  | zrem =>
      rw [dispatch] at returned
      split at returned
      · obtain ⟨rfl, rfl⟩ := Prod.mk.inj (Except.ok.inj returned)
        exact .usage
      · obtain ⟨member, _, returned⟩ := (Exec.bind_eq_ok _ _ _).mp returned
        obtain ⟨⟨result, after⟩, deleted, returned⟩ := (Exec.bind_eq_ok _ _ _).mp returned
        obtain ⟨rfl, rfl⟩ := Prod.mk.inj (Except.ok.inj returned)
        exact .deleted deleted
  | zcard =>
      rw [dispatch] at returned
      split at returned
      · obtain ⟨rfl, rfl⟩ := Prod.mk.inj (Except.ok.inj returned)
        exact .usage
      · obtain ⟨rfl, rfl⟩ := Prod.mk.inj (Except.ok.inj returned)
        exact .counted
  | zdis =>
      rw [dispatch] at returned
      split at returned
      · obtain ⟨rfl, rfl⟩ := Prod.mk.inj (Except.ok.inj returned)
        exact .usage
      · obtain ⟨printed, _, returned⟩ := (Exec.bind_eq_ok _ _ _).mp returned
        obtain ⟨rfl, rfl⟩ := Prod.mk.inj (Except.ok.inj returned)
        exact .displayed rfl
  | _ =>
      obtain ⟨rfl, rfl⟩ := Prod.mk.inj (Except.ok.inj returned)
      exact .usage

theorem config_answered (action : verb request.cmd = .config)
    (returned : server.config request.args = .ok (response, next)) : Answered server request response next := by
  unfold config at returned
  split at returned
  · rename_i count
    obtain ⟨rfl, rfl⟩ := Prod.mk.inj (Except.ok.inj returned)
    exact .misconfigured action count
  · rename_i three
    obtain ⟨first, name, text, args⟩ := List.length_eq_three.mp (not_not.mp three)
    simp only [args, argument, List.getElem?_cons_zero, List.getElem?_cons_succ, Exec.pure_eq, Exec.ok_bind] at returned
    split at returned
    · rename_i sets
      split at returned
      · rename_i maximum
        obtain ⟨value, read, returned⟩ := (Exec.bind_eq_ok _ _ _).mp returned
        obtain ⟨rfl, rfl⟩ := Prod.mk.inj (Except.ok.inj returned)
        exact .configured action args sets maximum (number_eq_ok.mp read)
      · rename_i other
        obtain ⟨rfl, rfl⟩ := Prod.mk.inj (Except.ok.inj returned)
        exact .unconfigured action args (fun facts => other facts.2) (Or.inr rfl)
    · rename_i other
      obtain ⟨rfl, rfl⟩ := Prod.mk.inj (Except.ok.inj returned)
      exact .unconfigured action args (fun facts => other facts.1) (Or.inl rfl)

/-- `CONFIG` with three arguments. -/
theorem config_of_three (server : Server) (first name text : Str) :
    server.config [first, name, text] =
      if first = bytes "SET" ∨ first = bytes "set" then
        if name = bytes "maxmemory" ∨ name = bytes "MAXMEMORY" then
          number text >>= fun maxMemory => pure (.number (server.configs.setMaxMemory maxMemory.val).1,
            { server with configs := (server.configs.setMaxMemory maxMemory.val).2, updateConfig := true })
        else pure (.silent, { server with updateConfig := true })
      else pure (.silent, server) := rfl

theorem expire_answered (action : verb request.cmd = .expire)
    (returned : server.expire request.args request.now = .ok (response, next)) :
    Answered server request response next := by
  unfold expire at returned
  split at returned
  · obtain ⟨rfl, rfl⟩ := Prod.mk.inj (Except.ok.inj returned)
    exact .mistimed action
  · rename_i two
    obtain ⟨key, text, args⟩ := List.length_eq_two.mp (not_not.mp two)
    simp only [args, argument, List.getElem?_cons_zero, List.getElem?_cons_succ, Exec.pure_eq, Exec.ok_bind] at returned
    obtain ⟨seconds, read, returned⟩ := (Exec.bind_eq_ok _ _ _).mp returned
    obtain ⟨⟨result, timer⟩, pushed, returned⟩ := (Exec.bind_eq_ok _ _ _).mp returned
    obtain ⟨rfl, rfl⟩ := Prod.mk.inj (Except.ok.inj returned)
    exact .timed action args (number_eq_ok.mp read) pushed

theorem access_dispatched {action : Verb} {key : Str} {list : SkipList Str CInt}
    (returned : server.access action request key list = .ok (response, next)) :
    ∃ final, Dispatched action list response final ∧ next = { server with map := server.map.insert key final } := by
  obtain ⟨⟨answer, final⟩, dispatched, returned⟩ := (Exec.bind_eq_ok _ _ _).mp returned
  obtain ⟨rfl, rfl⟩ := Prod.mk.inj (Except.ok.inj returned)
  exact ⟨final, dispatch_dispatched dispatched, rfl⟩

theorem zset_answered {action : Verb} (same : verb request.cmd = action) (running : action ≠ .exit)
    (setCommand : action ≠ .config) (returned : server.zset action request = .ok (response, next)) :
    Answered server request response next := by
  obtain ⟨key, named, returned⟩ := (Exec.bind_eq_ok _ _ _).mp returned
  have named : request.args.head? = some key := by
    rw [List.head?_eq_getElem?]
    exact argument_eq_ok.mp named
  subst same
  split at returned
  · rename_i list found
    obtain ⟨final, dispatched, rfl⟩ := access_dispatched returned
    exact .accessed named (.present found) setCommand dispatched fun query => Dictionary.lookup_insert ..
  · rename_i absent
    split at returned
    · rename_i adds
      obtain ⟨list, constructed, returned⟩ := (Exec.bind_eq_ok _ _ _).mp returned
      obtain ⟨final, dispatched, rfl⟩ := access_dispatched returned
      refine .accessed named (.created adds absent constructed) setCommand dispatched fun query => ?_
      rw [Dictionary.lookup_insert, Dictionary.lookup_insert]
      split <;> rfl
    · rename_i other
      obtain ⟨rfl, rfl⟩ := Prod.mk.inj (Except.ok.inj returned)
      exact .absent named absent other running setCommand

/-- A command that returns has given one of the answers that commands give. -/
theorem handle_answered (returned : server.handle request = .ok (response, next)) :
    Answered server request response next := by
  unfold handle at returned
  split at returned
  case h_1 action =>
    obtain ⟨rfl, rfl⟩ := Prod.mk.inj (Except.ok.inj returned)
    exact .left action
  case h_2 action =>
    obtain ⟨files, _, returned⟩ := (Exec.bind_eq_ok _ _ _).mp returned
    obtain ⟨rfl, rfl⟩ := Prod.mk.inj (Except.ok.inj returned)
    exact .saved action
  case h_3 action => exact config_answered action returned
  case h_4 action => exact expire_answered action returned
  case h_5 notExit _ notConfig _ => exact zset_answered rfl notExit notConfig returned

theorem Dispatched.operated {action : Verb} {list final : SkipList Str CInt}
    (dispatched : Dispatched action list response final) : Operated list final := by
  cases dispatched with
  | inserted returned => exact .inserted returned
  | searched returned => exact .searched returned
  | deleted returned => exact .deleted returned
  | _ => exact .kept

/-- A command that returns has done one of the things that commands can do. -/
theorem Answered.handled (answered : Answered server request response next) : Handled server request next := by
  cases answered with
  | left action => exact .left action
  | saved action => exact .kept (by simp [action])
  | misconfigured action => exact .kept (by simp [action])
  | configured action => exact .configured action (Or.inr ⟨_, rfl⟩)
  | unconfigured action _ _ kept =>
      rcases kept with rfl | rfl
      · exact .kept (by simp [action])
      · exact .configured action (Or.inl rfl)
  | mistimed action => exact .kept (by simp [action])
  | timed action args read pushed => exact .expiring action args read pushed
  | absent _ _ _ running => exact .kept running
  | accessed named located _ dispatched stored => exact .accessed named located dispatched.operated stored

theorem handle_handled (returned : server.handle request = .ok (response, next)) : Handled server request next :=
  (handle_answered returned).handled

end Inversion

/-- What one step of the event loop can do to the server. -/
inductive Stepped (server : Server) : Step → Server → Prop where
  | skipped {event} (stopped : server.control ≠ .processing) : Stepped server (.event event) server
  | accepted : Stepped server (.event .accept) server
  | closed : Stepped server (.event .closed) server
  | signalled {received} : Stepped server (.event (.signals received)) (received.foldl signal server)
  | handled {request next} (running : server.control = .processing) (handled : Handled server request next) :
      Stepped server (.event (.receive request)) next
  | unexpired {now} (idle : server.control = .halted ∨ server.timeout = false) :
      Stepped server (.removeExpired now) server
  | expired {now keys timer map} (running : server.control ≠ .halted) (alarmed : server.timeout = true)
      (ticked : server.timer.tick now = .ok (keys, timer))
      (erased : ∀ query, (query ∈ keys ∧ map.lookup query = none) ∨
        (query ∉ keys ∧ map.lookup query = server.map.lookup query)) :
      Stepped server (.removeExpired now) { server with map := map, timer := timer, timeout := false }
  | halted (stopped : server.control = .halted) : Stepped server .reconfigure server
  | settled {control} (idle : server.updateConfig = false) : Stepped server .reconfigure { server with control := control }
  | reconfigured {map control} (pending : server.updateConfig = true)
      (changed : updateMaxMemory server.configs.maxMemory server.map = .ok map) :
      Stepped server .reconfigure { server with map := map, updateConfig := false, control := control }

section Steps
variable {server next : Server} {response : Response}

theorem eraseKey_stored {key : Str} (returned : server.eraseKey key = .ok next) :
    ∃ map, next = { server with map := map } ∧
      ∀ query, map.lookup query = if query = key then none else server.map.lookup query := by
  unfold eraseKey at returned
  split at returned
  · rename_i absent
    simp only [Exec.pure_eq, Except.ok.injEq] at returned
    refine ⟨server.map, returned.symm, fun query => ?_⟩
    split
    · rename_i same
      rw [same, absent]
    · rfl
  · obtain ⟨heap, _, returned⟩ := (Exec.bind_eq_ok _ _ _).mp returned
    simp only [Exec.pure_eq, Except.ok.injEq] at returned
    exact ⟨server.map.erase key, returned.symm, fun query => Dictionary.lookup_erase ..⟩

/-- The loop over the expired keys removes exactly these keys. -/
theorem eraseKeys_stored {keys : List Str} (returned : eraseKeys keys server = .ok next) :
    ∃ map, next = { server with map := map } ∧ ∀ query, (query ∈ keys ∧ map.lookup query = none) ∨
      (query ∉ keys ∧ map.lookup query = server.map.lookup query) := by
  induction keys generalizing server with
  | nil =>
      simp only [eraseKeys, Exec.pure_eq, Except.ok.injEq] at returned
      exact ⟨server.map, returned.symm, fun query => Or.inr ⟨List.not_mem_nil, rfl⟩⟩
  | cons key rest ih =>
      obtain ⟨middle, first, returned⟩ := (Exec.bind_eq_ok _ _ _).mp returned
      obtain ⟨between, rfl, erased⟩ := eraseKey_stored first
      obtain ⟨map, rfl, later⟩ := ih returned
      refine ⟨map, rfl, fun query => ?_⟩
      rcases later query with ⟨inside, gone⟩ | ⟨outside, kept⟩
      · exact Or.inl ⟨List.mem_cons_of_mem key inside, gone⟩
      · rw [erased] at kept
        by_cases same : query = key
        · rw [if_pos same] at kept
          exact Or.inl ⟨by simp [same], kept⟩
        · rw [if_neg same] at kept
          exact Or.inr ⟨by simp [same, outside], kept⟩

theorem removeExpired_stepped {now : Int} (running : server.control ≠ .halted)
    (returned : server.removeExpired now = .ok next) : Stepped server (.removeExpired now) next := by
  unfold removeExpired at returned
  split at returned
  · rename_i alarmed
    obtain ⟨⟨keys, timer⟩, ticked, returned⟩ := (Exec.bind_eq_ok _ _ _).mp returned
    obtain ⟨middle, erased, returned⟩ := (Exec.bind_eq_ok _ _ _).mp returned
    obtain ⟨map, rfl, stored⟩ := eraseKeys_stored erased
    simp only [Exec.pure_eq, Except.ok.injEq] at returned
    exact returned ▸ .expired running alarmed ticked stored
  · rename_i quiet
    simp only [Exec.pure_eq, Except.ok.injEq] at returned
    exact returned ▸ .unexpired (Or.inr (by simpa using quiet))

/-- A step that returns has done one of the things that steps can do. -/
theorem step_stepped {step : Step} (returned : server.step step = .ok (response, next)) :
    Stepped server step next := by
  cases step with
  | event event =>
      rw [Server.step] at returned
      split at returned
      case isFalse stopped =>
        simp only [Exec.pure_eq, Except.ok.injEq, Prod.mk.injEq] at returned
        exact returned.2 ▸ .skipped stopped
      case isTrue running =>
        cases event with
        | accept =>
            simp only [process, Exec.pure_eq, Except.ok.injEq, Prod.mk.injEq] at returned
            exact returned.2 ▸ .accepted
        | signals received =>
            simp only [process, Exec.pure_eq, Except.ok.injEq, Prod.mk.injEq] at returned
            exact returned.2 ▸ .signalled
        | closed =>
            simp only [process, Exec.pure_eq, Except.ok.injEq, Prod.mk.injEq] at returned
            exact returned.2 ▸ .closed
        | receive request => exact .handled running (handle_handled returned)
  | removeExpired now =>
      rw [Server.step] at returned
      split at returned
      case isTrue stopped =>
        simp only [Exec.pure_eq, Except.ok.injEq, Prod.mk.injEq] at returned
        exact returned.2 ▸ .unexpired (Or.inl stopped)
      case isFalse running =>
        obtain ⟨after, removed, returned⟩ := (Exec.bind_eq_ok _ _ _).mp returned
        simp only [Exec.pure_eq, Except.ok.injEq, Prod.mk.injEq] at returned
        exact returned.2 ▸ removeExpired_stepped running removed
  | reconfigure =>
      rw [Server.step] at returned
      split at returned
      case isTrue stopped =>
        simp only [Exec.pure_eq, Except.ok.injEq, Prod.mk.injEq] at returned
        exact returned.2 ▸ .halted stopped
      case isFalse running =>
        obtain ⟨after, changed, returned⟩ := (Exec.bind_eq_ok _ _ _).mp returned
        simp only [Exec.pure_eq, Except.ok.injEq, Prod.mk.injEq] at returned
        obtain ⟨_, rfl⟩ := returned
        unfold Server.reconfigure at changed
        split at changed
        · rename_i pending
          obtain ⟨map, updated, changed⟩ := (Exec.bind_eq_ok _ _ _).mp changed
          simp only [Exec.pure_eq, Except.ok.injEq] at changed
          exact changed ▸ .reconfigured pending updated
        · rename_i idle
          simp only [Exec.pure_eq, Except.ok.injEq] at changed
          exact changed ▸ .settled (by simpa using idle)

/-- Signals set flags only. -/
theorem signalled_frame (received : List Signal) (server : Server) :
    (received.foldl signal server).map = server.map ∧ (received.foldl signal server).timer = server.timer ∧
      (received.foldl signal server).configs = server.configs ∧
      (received.foldl signal server).updateConfig = server.updateConfig ∧
      (received.foldl signal server).control = server.control := by
  induction received generalizing server with
  | nil => exact ⟨rfl, rfl, rfl, rfl, rfl⟩
  | cons first rest ih =>
      obtain ⟨map, timer, configs, updateConfig, control⟩ := ih (signal server first)
      rw [List.foldl_cons, map, timer, configs, updateConfig, control]
      cases first <;> exact ⟨rfl, rfl, rfl, rfl, rfl⟩

/-- Where a set after a step comes from: it was there, a command worked on it, or the configuration was reloaded. -/
inductive Source (server next : Server) (key : Str) (list : SkipList Str CInt) : Step → Prop where
  | held {step} (found : server.map.lookup key = some list)
      (calm : next.updateConfig = false → server.updateConfig = false ∧ next.configs = server.configs) :
      Source server next key list step
  | accessed {request before} (running : server.control = .processing) (named : request.args.head? = some key)
      (located : Located server request key before) (operated : Operated before list)
      (frame : next = { server with map := next.map }) : Source server next key list (.event (.receive request))
  | reconfigured {before result} (pending : server.updateConfig = true) (found : server.map.lookup key = some before)
      (set : before.setMaxMemory server.configs.maxMemory = .ok (result, list))
      (configs : next.configs = server.configs) : Source server next key list .reconfigure

/-- Every set after a step has one of the sources. -/
theorem Stepped.source {step : Step} (stepped : Stepped server step next) {key : Str} {list : SkipList Str CInt}
    (found : next.map.lookup key = some list) : Source server next key list step := by
  cases stepped with
  | skipped => exact .held found fun idle => ⟨idle, rfl⟩
  | accepted => exact .held found fun idle => ⟨idle, rfl⟩
  | closed => exact .held found fun idle => ⟨idle, rfl⟩
  | @signalled received =>
      obtain ⟨map, _, configs, updateConfig, _⟩ := signalled_frame received server
      rw [map] at found
      exact .held found fun idle => ⟨updateConfig.symm.trans idle, configs⟩
  | handled running handled =>
      cases handled with
      | left => exact .held found fun idle => ⟨idle, rfl⟩
      | kept => exact .held found fun idle => ⟨idle, rfl⟩
      | configured => exact .held found fun idle => absurd idle (by simp)
      | expiring => exact .held found fun idle => ⟨idle, rfl⟩
      | accessed named located operated stored =>
          rw [stored] at found
          split at found
          · rename_i same
            subst same
            obtain rfl := Option.some.inj found
            exact .accessed running named located operated rfl
          · exact .held found fun idle => ⟨idle, rfl⟩
  | unexpired => exact .held found fun idle => ⟨idle, rfl⟩
  | expired _ _ _ erased =>
      rcases erased key with ⟨_, gone⟩ | ⟨_, kept⟩
      · simp [gone] at found
      · exact .held (kept.symm.trans found) fun idle => ⟨idle, rfl⟩
  | halted => exact .held found fun idle => ⟨idle, rfl⟩
  | settled => exact .held found fun idle => ⟨idle, rfl⟩
  | reconfigured pending changed =>
      rcases Dictionary.updateAll_lookup changed key with ⟨_, gone⟩ | ⟨before, after, held, updated, stored⟩
      · simp [gone] at found
      · obtain rfl : after = list := Option.some.inj (stored.symm.trans found)
        obtain ⟨⟨result, final⟩, set, returned⟩ := (Exec.bind_eq_ok _ _ _).mp updated
        obtain rfl : final = after := Except.ok.inj returned
        exact .reconfigured pending held set rfl

/-- A step keeps the timer, sets the deadline of an `EXPIRE`, or removes the due deadlines. -/
theorem Stepped.timer {step : Step} (stepped : Stepped server step next) :
    next.timer = server.timer ∨
      (∃ request key text seconds result, step = .event (.receive request) ∧ server.control = .processing ∧
        verb request.cmd = .expire ∧ request.args = [key, text] ∧ stoi text = some seconds ∧
        server.timer.push key seconds.val request.now = .ok (result, next.timer)) ∨
      ∃ now keys, server.timer.tick now = .ok (keys, next.timer) := by
  cases stepped with
  | @signalled received => exact Or.inl (signalled_frame received server).2.1
  | handled running handled =>
      cases handled with
      | expiring action args read pushed =>
          exact Or.inr (Or.inl ⟨_, _, _, _, _, rfl, running, action, args, read, pushed⟩)
      | _ => exact Or.inl rfl
  | expired _ _ ticked => exact Or.inr (Or.inr ⟨_, _, ticked⟩)
  | _ => exact Or.inl rfl

/-- A step keeps the configuration or is a `CONFIG` command. -/
theorem Stepped.configs {step : Step} (stepped : Stepped server step next) :
    next.configs = server.configs ∨ ∃ maxMemory, next.configs = (server.configs.setMaxMemory maxMemory).2 := by
  cases stepped with
  | @signalled received => exact Or.inl (signalled_frame received server).2.2.1
  | handled _ handled =>
      cases handled with
      | configured _ changed => exact changed
      | _ => exact Or.inl rfl
  | _ => exact Or.inl rfl

end Steps

end MySkipList.Server
