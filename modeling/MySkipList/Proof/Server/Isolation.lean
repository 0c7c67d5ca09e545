import MySkipList.Proof.Server.Totality

namespace MySkipList

open Foundation

/-- The commands that name a set in their first argument. -/
def Verb.names : Verb → Bool
  | .exit => false
  | .save => false
  | .config => false
  | .expire => false
  | _ => true

namespace Server
variable {server other next : Server} {map : Dictionary Str (SkipList Str CInt)} {key : Str} {request : Request}
  {response : Response}

/-- Every step concerns a key, except a set command on another key. -/
def concerns (key : Str) : Step → Bool
  | .event (.receive request) => !(verb request.cmd).names || request.args.head? == some key
  | _ => true

/-- The other server has the set of the key and no other set; the rest is the same. -/
structure Isolates (key : Str) (server other : Server) : Prop where
  frame : other = { server with map := other.map }
  chosen : other.map.lookup key = server.map.lookup key
  alone : ∀ query, query ≠ key → other.map.lookup query = none

/-- The same writes, and of the files only the file of the key. -/
def SameFor (key : Str) (response answer : Response) : Prop :=
  answer.writes = response.writes ∧ answer.files = response.files.filter fun file => file.1 = fileName key

theorem fileName_injective {first second : Str} (same : fileName first = fileName second) : first = second := by
  rw [fileName, fileName, List.append_assoc, List.append_assoc] at same
  exact List.append_cancel_right (List.append_cancel_left same)

/-- Changes of the maps that agree on the key keep the isolation. -/
theorem Isolates.stored (isolates : Isolates key server other) {first second : Dictionary Str (SkipList Str CInt)}
    (chosen : second.lookup key = first.lookup key) (alone : ∀ query, query ≠ key → second.lookup query = none) :
    Isolates key { server with map := first } { other with map := second } := by
  refine ⟨?_, chosen, alone⟩
  rw [isolates.frame]

theorem saveAll_chosen {opens : Str → Bool} (chosen : map.lookup key = server.map.lookup key) {keys : List Str}
    {files : List (Str × Str)} (saved : saveAll opens server.map keys = .ok files) :
    saveAll opens map (keys.filter fun query => query = key) =
      .ok (files.filter fun file => file.1 = fileName key) := by
  induction keys generalizing files with
  | nil =>
      obtain rfl := Except.ok.inj saved
      rfl
  | cons first rest ih =>
      rw [saveAll] at saved
      by_cases same : first = key
      · subst same
        rw [List.filter_cons_of_pos (by simp), saveAll, chosen]
        cases found : server.map.lookup first with
        | none =>
            rw [found] at saved
            exact ih saved
        | some list =>
            rw [found] at saved
            dsimp only at saved ⊢
            split at saved
            · rename_i opened
              obtain ⟨written, wrote, saved⟩ := (Exec.bind_eq_ok _ _ _).mp saved
              obtain ⟨later, continued, saved⟩ := (Exec.bind_eq_ok _ _ _).mp saved
              obtain rfl := Except.ok.inj saved
              rw [if_pos opened, wrote, Exec.ok_bind, ih continued, List.filter_cons_of_pos (by simp)]
              rfl
            · rename_i closed
              rw [if_neg closed]
              exact ih saved
      · rw [List.filter_cons_of_neg (by simpa using same)]
        split at saved
        · exact ih saved
        · split at saved
          · obtain ⟨written, _, saved⟩ := (Exec.bind_eq_ok _ _ _).mp saved
            obtain ⟨later, continued, saved⟩ := (Exec.bind_eq_ok _ _ _).mp saved
            obtain rfl := Except.ok.inj saved
            rw [List.filter_cons_of_neg (by simpa using fun equal => same (fileName_injective equal)), ih continued]
          · exact ih saved

/-- The only key of the other server is the key, when it has a set. -/
theorem Isolates.keys (isolates : Isolates key server other) :
    other.map.keys = server.map.keys.filter fun query => query = key := by
  have member (query : Str) : query ∈ other.map.keys ↔ query ∈ server.map.keys.filter fun query => query = key := by
    rw [List.mem_filter, Dictionary.mem_keys_iff, Dictionary.mem_keys_iff, decide_eq_true_eq]
    by_cases same : query = key
    · rw [same, isolates.chosen, and_iff_left rfl]
    · simp [isolates.alone query same, same]
  have permuted : (other.map.keys).Perm (server.map.keys.filter fun query => query = key) :=
    (List.perm_ext_iff_of_nodup other.map.keys_nodup (server.map.keys_nodup.filter _)).mpr member
  calc other.map.keys
      = List.replicate other.map.keys.length key := List.eq_replicate_of_mem fun query inside => by
        simpa using List.of_mem_filter ((member query).mp inside)
    _ = List.replicate (server.map.keys.filter fun query => query = key).length key := by rw [permuted.length_eq]
    _ = server.map.keys.filter fun query => query = key := (List.eq_replicate_of_mem fun query inside => by
        simpa using List.of_mem_filter inside).symm

theorem Isolates.save (isolates : Isolates key server other) (returned : server.save request = .ok (response, next)) :
    ∃ answer later, other.save request = .ok (answer, later) ∧ SameFor key response answer ∧
      Isolates key next later := by
  obtain ⟨files, saved, returned⟩ := (Exec.bind_eq_ok _ _ _).mp returned
  obtain ⟨rfl, rfl⟩ := Prod.mk.inj (Except.ok.inj returned)
  have only := saveAll_chosen isolates.chosen saved
  rw [← isolates.keys] at only
  exact ⟨{ Response.text (bytes "OK\n") 3 with files := files.filter fun file => file.1 = fileName key }, other,
    by rw [Server.save, only]; rfl, ⟨rfl, rfl⟩, isolates⟩

/-- A response without files is its own answer. -/
theorem SameFor.of_eq (unwritten : response.files = []) : SameFor key response response :=
  ⟨rfl, by rw [unwritten]; rfl⟩

/-- `CONFIG` and `EXPIRE` neither read nor change the sets. -/
theorem config_frame (map : Dictionary Str (SkipList Str CInt)) {args : List Str}
    (returned : server.config args = .ok (response, next)) :
    { server with map := map }.config args = .ok (response, { next with map := map }) ∧ response.files = [] ∧
      next.map = server.map := by
  by_cases count : args.length = 3
  · obtain ⟨first, name, text, rfl⟩ := List.length_eq_three.mp count
    rw [config_of_three] at returned ⊢
    split at returned
    · rename_i sets
      rw [if_pos sets]
      split at returned
      · rename_i maximum
        obtain ⟨value, read, returned⟩ := (Exec.bind_eq_ok _ _ _).mp returned
        obtain ⟨rfl, rfl⟩ := Prod.mk.inj (Except.ok.inj returned)
        exact ⟨by rw [if_pos maximum, read]; rfl, rfl, rfl⟩
      · rename_i other
        obtain ⟨rfl, rfl⟩ := Prod.mk.inj (Except.ok.inj returned)
        exact ⟨if_neg other, rfl, rfl⟩
    · rename_i other
      obtain ⟨rfl, rfl⟩ := Prod.mk.inj (Except.ok.inj returned)
      exact ⟨if_neg other, rfl, rfl⟩
  · rw [config, if_pos count] at returned ⊢
    obtain ⟨rfl, rfl⟩ := Prod.mk.inj (Except.ok.inj returned)
    exact ⟨rfl, rfl, rfl⟩

theorem expire_frame (map : Dictionary Str (SkipList Str CInt)) {args : List Str} {now : Int}
    (returned : server.expire args now = .ok (response, next)) :
    { server with map := map }.expire args now = .ok (response, { next with map := map }) ∧ response.files = [] ∧
      next.map = server.map := by
  unfold expire at returned ⊢
  split at returned
  · rename_i count
    obtain ⟨rfl, rfl⟩ := Prod.mk.inj (Except.ok.inj returned)
    exact ⟨if_pos count, rfl, rfl⟩
  · rename_i two
    obtain ⟨key, named, returned⟩ := (Exec.bind_eq_ok _ _ _).mp returned
    obtain ⟨text, given, returned⟩ := (Exec.bind_eq_ok _ _ _).mp returned
    obtain ⟨seconds, read, returned⟩ := (Exec.bind_eq_ok _ _ _).mp returned
    obtain ⟨⟨result, timer⟩, pushed, returned⟩ := (Exec.bind_eq_ok _ _ _).mp returned
    obtain ⟨rfl, rfl⟩ := Prod.mk.inj (Except.ok.inj returned)
    exact ⟨by simp [two, named, given, read, pushed], rfl, rfl⟩

/-- A command that changes the map of neither server. -/
theorem Isolates.unchanged (isolates : Isolates key server other) (same : next.map = server.map) :
    Isolates key next { next with map := other.map } :=
  ⟨rfl, isolates.chosen.trans (congrArg _ same.symm), isolates.alone⟩

theorem Isolates.access (isolates : Isolates key server other) {action : Verb} {list : SkipList Str CInt}
    (returned : server.access action request key list = .ok (response, next)) :
    ∃ later, other.access action request key list = .ok (response, later) ∧ SameFor key response response ∧
      Isolates key next later := by
  obtain ⟨⟨answer, final⟩, dispatched, returned⟩ := (Exec.bind_eq_ok _ _ _).mp returned
  obtain ⟨rfl, rfl⟩ := Prod.mk.inj (Except.ok.inj returned)
  refine ⟨{ other with map := other.map.insert key final }, by rw [Server.access, dispatched]; rfl, .of_eq ?_, ?_⟩
  · cases dispatch_dispatched dispatched with
    | usage => cases action <;> rfl
    | _ => rfl
  · refine isolates.stored ?_ fun query different => ?_
    · rw [Dictionary.lookup_insert, Dictionary.lookup_insert, if_pos rfl, if_pos rfl]
    · rw [Dictionary.lookup_insert, if_neg different]
      exact isolates.alone query different

/-- A set command on the key does the same on both servers. -/
theorem Isolates.zset (isolates : Isolates key server other) {action : Verb} (named : request.args.head? = some key)
    (returned : server.zset action request = .ok (response, next)) :
    ∃ later, other.zset action request = .ok (response, later) ∧ SameFor key response response ∧
      Isolates key next later := by
  have first : argument request.args 0 = .ok key := argument_eq_ok.mpr (by rw [← List.head?_eq_getElem?, named])
  have configs : other.configs = server.configs := by rw [isolates.frame]
  rw [Server.zset, first, Exec.ok_bind] at returned ⊢
  rw [isolates.chosen]
  cases found : server.map.lookup key with
  | some list =>
      rw [found] at returned
      exact isolates.access returned
  | none =>
      rw [found] at returned
      dsimp only at returned ⊢
      split at returned
      · rename_i adds
        obtain ⟨list, constructed, returned⟩ := (Exec.bind_eq_ok _ _ _).mp returned
        rw [← configs] at constructed
        rw [if_pos adds, constructed, Exec.ok_bind]
        refine Isolates.access (isolates.stored ?_ fun query different => ?_) returned
        · rw [Dictionary.lookup_insert, Dictionary.lookup_insert, if_pos rfl, if_pos rfl]
        · rw [Dictionary.lookup_insert, if_neg different]
          exact isolates.alone query different
      · rename_i other
        obtain ⟨rfl, rfl⟩ := Prod.mk.inj (Except.ok.inj returned)
        rw [if_neg other]
        exact ⟨_, rfl, .of_eq (by cases action <;> rfl), isolates⟩

theorem Isolates.handle (isolates : Isolates key server other)
    (named : (verb request.cmd).names = true → request.args.head? = some key)
    (returned : server.handle request = .ok (response, next)) :
    ∃ answer later, other.handle request = .ok (answer, later) ∧ SameFor key response answer ∧
      Isolates key next later := by
  unfold Server.handle at returned ⊢
  split at returned
  case h_1 =>
    obtain ⟨rfl, rfl⟩ := Prod.mk.inj (Except.ok.inj returned)
    refine ⟨.silent, _, rfl, .of_eq rfl, ?_, isolates.chosen, isolates.alone⟩
    rw [isolates.frame]
  case h_2 => exact isolates.save returned
  case h_3 =>
    obtain ⟨same, unwritten, kept⟩ := config_frame other.map returned
    rw [← isolates.frame] at same
    exact ⟨response, _, same, .of_eq unwritten, isolates.unchanged kept⟩
  case h_4 =>
    obtain ⟨same, unwritten, kept⟩ := expire_frame other.map returned
    rw [← isolates.frame] at same
    exact ⟨response, _, same, .of_eq unwritten, isolates.unchanged kept⟩
  case h_5 exits saves configures expires =>
    have set : (verb request.cmd).names = true := by
      cases action : verb request.cmd <;> simp_all [Verb.names]
    obtain ⟨later, same, similar, still⟩ := isolates.zset (named set) returned
    exact ⟨response, later, same, similar, still⟩

theorem signalled_map (received : List Signal) (server : Server) (map : Dictionary Str (SkipList Str CInt)) :
    received.foldl signal { server with map := map } = { received.foldl signal server with map := map } := by
  induction received generalizing server with
  | nil => rfl
  | cons first rest ih =>
      have one : signal { server with map := map } first = { signal server first with map := map } := by
        cases first <;> rfl
      rw [List.foldl_cons, List.foldl_cons, one]
      exact ih _

theorem Isolates.process (isolates : Isolates key server other) {event : Event}
    (concerned : concerns key (.event event) = true) (returned : server.process event = .ok (response, next)) :
    ∃ answer later, other.process event = .ok (answer, later) ∧ SameFor key response answer ∧
      Isolates key next later := by
  cases event with
  | receive request =>
      refine isolates.handle (fun names => ?_) returned
      simpa [concerns, names] using concerned
  | accept =>
      obtain ⟨rfl, rfl⟩ := Prod.mk.inj (Except.ok.inj returned)
      exact ⟨.silent, other, rfl, .of_eq rfl, isolates⟩
  | closed =>
      obtain ⟨rfl, rfl⟩ := Prod.mk.inj (Except.ok.inj returned)
      exact ⟨.silent, other, rfl, .of_eq rfl, isolates⟩
  | signals received =>
      obtain ⟨rfl, rfl⟩ := Prod.mk.inj (Except.ok.inj returned)
      refine ⟨.silent, _, rfl, .of_eq rfl, ?_⟩
      have kept := (signalled_frame received server).1
      have same : received.foldl signal other = { received.foldl signal server with map := other.map } :=
        (congrArg (received.foldl signal) isolates.frame).trans (signalled_map received server other.map)
      rw [same]
      exact isolates.unchanged kept

theorem Isolates.eraseKeys (isolates : Isolates key server other) {keys : List Str}
    (returned : eraseKeys keys server = .ok next) :
    ∃ later, Server.eraseKeys keys other = .ok later ∧ Isolates key next later := by
  induction keys generalizing server other with
  | nil =>
      obtain rfl := Except.ok.inj returned
      exact ⟨other, rfl, isolates⟩
  | cons first rest ih =>
      obtain ⟨middle, erased, returned⟩ := (Exec.bind_eq_ok _ _ _).mp returned
      have one : ∃ between, other.eraseKey first = .ok between ∧ Isolates key middle between := by
        obtain ⟨map, rfl, stored⟩ := eraseKey_stored erased
        by_cases same : first = key
        · subst same
          unfold eraseKey at erased ⊢
          rw [isolates.chosen]
          cases found : server.map.lookup first with
          | none =>
              refine ⟨other, rfl, by rw [isolates.frame], ?_, isolates.alone⟩
              rw [stored, if_pos rfl, isolates.chosen, found]
          | some list =>
              simp only [found] at erased
              obtain ⟨heap, destroyed, _⟩ := (Exec.bind_eq_ok _ _ _).mp erased
              refine ⟨{ other with map := other.map.erase first }, by simp [destroyed],
                isolates.stored ?_ fun query different => ?_⟩
              · rw [Dictionary.lookup_erase, stored, if_pos rfl, if_pos rfl]
              · rw [Dictionary.lookup_erase, if_neg different]
                exact isolates.alone query different
        · refine ⟨other, by rw [eraseKey, isolates.alone first same]; rfl, by rw [isolates.frame], ?_, isolates.alone⟩
          rw [stored, if_neg (Ne.symm same)]
          exact isolates.chosen
      obtain ⟨between, erasedOther, still⟩ := one
      obtain ⟨later, continued, result⟩ := ih still returned
      exact ⟨later, by rw [Server.eraseKeys, erasedOther, Exec.ok_bind, continued], result⟩

theorem Isolates.removeExpired (isolates : Isolates key server other) {now : Int}
    (returned : server.removeExpired now = .ok next) :
    ∃ later, other.removeExpired now = .ok later ∧ Isolates key next later := by
  have timeout : other.timeout = server.timeout := by rw [isolates.frame]
  have timer : other.timer = server.timer := by rw [isolates.frame]
  rw [Server.removeExpired] at returned ⊢
  split at returned
  · rename_i alarmed
    obtain ⟨⟨keys, ticking⟩, ticked, returned⟩ := (Exec.bind_eq_ok _ _ _).mp returned
    obtain ⟨middle, erased, returned⟩ := (Exec.bind_eq_ok _ _ _).mp returned
    obtain rfl := Except.ok.inj returned
    have timed : Isolates key { server with timer := ticking } { other with timer := ticking } :=
      ⟨by rw [isolates.frame], isolates.chosen, isolates.alone⟩
    obtain ⟨later, same, still⟩ := timed.eraseKeys erased
    refine ⟨{ later with timeout := false }, ?_, ?_, still.chosen, still.alone⟩
    · rw [if_pos (timeout.trans alarmed), timer, ticked, Exec.ok_bind]
      dsimp only
      rw [same]
      rfl
    · rw [still.frame]
  · rename_i quiet
    obtain rfl := Except.ok.inj returned
    exact ⟨other, if_neg fun alarmed => quiet (timeout.symm.trans alarmed), isolates⟩

theorem Isolates.reconfigure (isolates : Isolates key server other) (returned : server.reconfigure = .ok next) :
    ∃ later, other.reconfigure = .ok later ∧ Isolates key next later := by
  have pending : other.updateConfig = server.updateConfig := by rw [isolates.frame]
  have configs : other.configs = server.configs := by rw [isolates.frame]
  rw [Server.reconfigure] at returned ⊢
  split at returned
  · rename_i updates
    obtain ⟨map, updated, returned⟩ := (Exec.bind_eq_ok _ _ _).mp returned
    obtain rfl := Except.ok.inj returned
    obtain ⟨only, updatedOther⟩ : ∃ only, updateMaxMemory server.configs.maxMemory other.map = .ok only := by
      refine Dictionary.updateAll_returns fun query list found => ?_
      by_cases same : query = key
      · subst same
        rw [isolates.chosen] at found
        rcases Dictionary.updateAll_lookup updated query with ⟨absent, _⟩ | ⟨_, changed, known, set, _⟩
        · cases absent.symm.trans found
        · obtain rfl := Option.some.inj (known.symm.trans found)
          exact ⟨changed, set⟩
      · cases (isolates.alone query same).symm.trans found
    refine ⟨{ other with map := only, updateConfig := false }, by rw [if_pos (pending.trans updates), configs, updatedOther]; rfl,
      by rw [isolates.frame], ?_, fun query different => ?_⟩
    · rcases Dictionary.updateAll_lookup updated key with ⟨absent, gone⟩ | ⟨list, changed, found, set, stored⟩
      · rcases Dictionary.updateAll_lookup updatedOther key with ⟨_, none⟩ | ⟨other, _, known, _⟩
        · exact none.trans gone.symm
        · cases (isolates.chosen.trans absent).symm.trans known
      · rcases Dictionary.updateAll_lookup updatedOther key with ⟨absent, _⟩ | ⟨other, result, known, setOther, last⟩
        · cases (isolates.chosen.trans found).symm.trans absent
        · obtain rfl := Option.some.inj ((isolates.chosen.trans found).symm.trans known)
          obtain rfl := Except.ok.inj (set.symm.trans setOther)
          exact last.trans stored.symm
    · rcases Dictionary.updateAll_lookup updatedOther query with ⟨_, none⟩ | ⟨_, _, known, _⟩
      · exact none
      · cases (isolates.alone query different).symm.trans known
  · rename_i idle
    obtain rfl := Except.ok.inj returned
    exact ⟨other, if_neg fun updates => idle (pending.symm.trans updates), isolates⟩

/-- A step that concerns the key does the same to its set on both servers. -/
theorem Isolates.step (isolates : Isolates key server other) {step : Step} (concerned : concerns key step = true)
    (returned : server.step step = .ok (response, next)) :
    ∃ answer later, other.step step = .ok (answer, later) ∧ SameFor key response answer ∧ Isolates key next later := by
  have control : other.control = server.control := by rw [isolates.frame]
  cases step with
  | event event =>
      rw [Server.step] at returned ⊢
      rw [control]
      split at returned
      · rename_i running
        rw [if_pos running]
        exact isolates.process concerned returned
      · rename_i stopped
        obtain ⟨rfl, rfl⟩ := Prod.mk.inj (Except.ok.inj returned)
        rw [if_neg stopped]
        exact ⟨.silent, other, rfl, .of_eq rfl, isolates⟩
  | removeExpired now =>
      rw [Server.step] at returned ⊢
      rw [control]
      split at returned
      · rename_i stopped
        obtain ⟨rfl, rfl⟩ := Prod.mk.inj (Except.ok.inj returned)
        rw [if_pos stopped]
        exact ⟨.silent, other, rfl, .of_eq rfl, isolates⟩
      · rename_i running
        obtain ⟨after, removed, returned⟩ := (Exec.bind_eq_ok _ _ _).mp returned
        obtain ⟨rfl, rfl⟩ := Prod.mk.inj (Except.ok.inj returned)
        obtain ⟨later, same, still⟩ := isolates.removeExpired removed
        rw [if_neg running, same]
        exact ⟨.silent, later, rfl, .of_eq rfl, still⟩
  | reconfigure =>
      rw [Server.step] at returned ⊢
      rw [control]
      split at returned
      · rename_i stopped
        obtain ⟨rfl, rfl⟩ := Prod.mk.inj (Except.ok.inj returned)
        rw [if_pos stopped]
        exact ⟨.silent, other, rfl, .of_eq rfl, isolates⟩
      · rename_i running
        obtain ⟨after, changed, returned⟩ := (Exec.bind_eq_ok _ _ _).mp returned
        obtain ⟨rfl, rfl⟩ := Prod.mk.inj (Except.ok.inj returned)
        obtain ⟨later, same, still⟩ := isolates.reconfigure changed
        rw [if_neg running, same]
        refine ⟨.silent, _, rfl, .of_eq rfl, ?_, still.chosen, still.alone⟩
        rw [still.frame]

end Server

end MySkipList
