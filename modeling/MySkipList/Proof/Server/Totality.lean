import MySkipList.Proof.Server.Soundness

namespace MySkipList

open Foundation

/-- A number that `CONFIG` sets is readable. -/
def Configurable : List Str → Prop
  | [action, name, value] =>
      (action = bytes "SET" ∨ action = bytes "set") → (name = bytes "maxmemory" ∨ name = bytes "MAXMEMORY") →
        (stoi value).isSome
  | _ => True

/-- A number of seconds that `EXPIRE` reads is readable. -/
def Timed : List Str → Prop
  | [_, seconds] => (stoi seconds).isSome
  | _ => True

/-- A score that `ZADD` reads is readable. -/
def Scored : List Str → Prop
  | [_, score, _] => (stoi score).isSome
  | _ => True

/-- The first argument of a set command is there, and every number that is read is readable. -/
def Request.Answerable (request : Request) : Prop :=
  match verb request.cmd with
  | .exit => True
  | .save => True
  | .config => Configurable request.args
  | .expire => Timed request.args
  | .zadd => request.args ≠ [] ∧ Scored request.args
  | _ => request.args ≠ []

namespace Server
variable {server : Server}

theorem number_returns_iff (text : Str) : (∃ value, number text = .ok value) ↔ (stoi text).isSome := by
  unfold number
  cases stoi text <;> simp

theorem saveAll_returns (sound : server.Sound) (opens : Str → Bool) (keys : List Str) :
    ∃ files, saveAll opens server.map keys = .ok files := by
  induction keys with
  | nil => exact ⟨[], rfl⟩
  | cons key rest ih =>
      obtain ⟨files, saved⟩ := ih
      rw [saveAll]
      cases found : server.map.lookup key with
      | none => exact ⟨files, saved⟩
      | some list =>
          obtain ⟨written, wrote⟩ := (sound.sets key list found).save
          by_cases opened : opens (fileName key)
          · exact ⟨(fileName key, written) :: files, by simp [opened, wrote, saved]⟩
          · exact ⟨files, by simp [opened, saved]⟩

theorem config_returns_iff (server : Server) (args : List Str) :
    (∃ result, server.config args = .ok result) ↔ Configurable args := by
  rcases args with _ | ⟨action, _ | ⟨name, _ | ⟨value, _ | ⟨extra, rest⟩⟩⟩⟩
  · simp [config, Configurable]
  · simp [config, Configurable]
  · simp [config, Configurable]
  · rw [Configurable, ← number_returns_iff]
    by_cases sets : action = bytes "SET" ∨ action = bytes "set"
    · by_cases maximum : name = bytes "maxmemory" ∨ name = bytes "MAXMEMORY"
      · cases read : number value <;> simp [config, argument, sets, maximum, read]
      · simp [config, argument, sets, maximum]
    · simp [config, argument, sets]
  · simp [config, Configurable]

theorem expire_returns_iff (sound : server.Sound) (args : List Str) (now : Int) :
    (∃ result, server.expire args now = .ok result) ↔ Timed args := by
  rcases args with _ | ⟨key, _ | ⟨text, _ | ⟨extra, rest⟩⟩⟩
  · simp [expire, Timed]
  · simp [expire, Timed]
  · rw [Timed, ← number_returns_iff]
    obtain ⟨deadlines, rep⟩ := sound.pending
    cases read : number text with
    | error fault => simp [expire, argument, read]
    | ok seconds =>
        obtain ⟨timer, pushed, _⟩ := rep.push key seconds.val now
        simp [expire, argument, read, pushed]
  · simp [expire, Timed]

/-- The score that a command reads is readable. -/
def ReadsScore (action : Verb) (args : List Str) : Prop := action = .zadd → Scored args

theorem dispatch_returns_iff {list : SkipList Str CInt} (sound : list.Sound) (action : Verb) (args : List Str)
    (draws : List Nat) : (∃ result, dispatch action args draws list = .ok result) ↔ ReadsScore action args := by
  cases action with
  | zadd =>
      rcases args with _ | ⟨key, _ | ⟨score, _ | ⟨member, _ | ⟨extra, rest⟩⟩⟩⟩
      · simp [dispatch, ReadsScore, Scored]
      · simp [dispatch, ReadsScore, Scored]
      · simp [dispatch, ReadsScore, Scored]
      · simp only [ReadsScore, true_implies, Scored, ← number_returns_iff]
        cases read : number score with
        | error fault => simp [dispatch, argument, read]
        | ok value =>
            obtain ⟨result, next, inserted, _⟩ := sound.operate Subtype.val (.insertElement member value draws)
            rw [SkipList.operate] at inserted
            simp [dispatch, argument, read, inserted]
      · simp [dispatch, ReadsScore, Scored]
  | zscore =>
      rcases args with _ | ⟨key, _ | ⟨member, _ | ⟨extra, rest⟩⟩⟩
      · simp [dispatch, ReadsScore]
      · simp [dispatch, ReadsScore]
      · obtain ⟨result, next, searched, _⟩ := sound.operate Subtype.val (.searchElement member)
        have returned : dispatch .zscore [key, member] draws list = .ok (.number result, next) := by
          show (list.searchElement Subtype.val member >>= fun found => pure (Response.number found.1, found.2)) = _
          rw [show list.searchElement Subtype.val member = .ok (result, next) from searched]
          rfl
        exact ⟨fun _ => by simp [ReadsScore], fun _ => ⟨_, returned⟩⟩
      · simp [dispatch, ReadsScore]
  | zrem =>
      rcases args with _ | ⟨key, _ | ⟨member, _ | ⟨extra, rest⟩⟩⟩
      · simp [dispatch, ReadsScore]
      · simp [dispatch, ReadsScore]
      · obtain ⟨result, next, deleted, _⟩ := sound.operate Subtype.val (.deleteElement member)
        rw [SkipList.operate] at deleted
        simp [dispatch, ReadsScore, argument, deleted]
      · simp [dispatch, ReadsScore]
  | zcard => by_cases one : args.length = 1 <;> simp [dispatch, ReadsScore, one]
  | zdis =>
      obtain ⟨printed, displayed⟩ := sound.displayList
      by_cases one : args.length = 1 <;> simp [dispatch, ReadsScore, one, displayed]
  | exit => simp [dispatch, ReadsScore]
  | save => simp [dispatch, ReadsScore]
  | config => simp [dispatch, ReadsScore]
  | expire => simp [dispatch, ReadsScore]
  | unknown => simp [dispatch, ReadsScore]

theorem access_returns_iff {list : SkipList Str CInt} (sound : list.Sound) (server : Server) (action : Verb)
    (request : Request) (key : Str) :
    (∃ result, server.access action request key list = .ok result) ↔ ReadsScore action request.args := by
  rw [← dispatch_returns_iff sound action request.args request.draws]
  cases dispatched : dispatch action request.args request.draws list <;> simp [access, dispatched]

theorem zset_returns_iff (sound : server.Sound) (action : Verb) (request : Request) :
    (∃ result, server.zset action request = .ok result) ↔
      request.args ≠ [] ∧ ReadsScore action request.args := by
  cases args : request.args with
  | nil => simp [zset, args, argument]
  | cons key rest =>
      rw [← args, and_iff_right (by simp [args])]
      have named : argument request.args 0 = .ok key := by simp [argument, args]
      rw [zset, named, Exec.ok_bind]
      cases found : server.map.lookup key with
      | some list => exact access_returns_iff (sound.sets key list found) server action request key
      | none =>
          dsimp only
          split
          · obtain ⟨list, constructed, fresh⟩ := SkipList.new_sound (K := Str) maxLevel (by decide)
              server.configs.maxMemory request.uninitialized
            rw [constructed, Exec.ok_bind]
            exact access_returns_iff fresh _ action request key
          · rename_i other
            simp [ReadsScore, other]

theorem handle_returns (sound : server.Sound) (request : Request) :
    (∃ result, server.handle request = .ok result) ↔ request.Answerable := by
  unfold handle Request.Answerable
  cases verb request.cmd with
  | exit => simp
  | save =>
      obtain ⟨files, saved⟩ := saveAll_returns sound request.opens server.map.keys
      simp [save, saved]
  | config => exact config_returns_iff server request.args
  | expire => exact expire_returns_iff sound request.args request.now
  | zadd => simpa [ReadsScore] using zset_returns_iff sound .zadd request
  | zscore => simpa [ReadsScore] using zset_returns_iff sound .zscore request
  | zrem => simpa [ReadsScore] using zset_returns_iff sound .zrem request
  | zcard => simpa [ReadsScore] using zset_returns_iff sound .zcard request
  | zdis => simpa [ReadsScore] using zset_returns_iff sound .zdis request
  | unknown => simpa [ReadsScore] using zset_returns_iff sound .unknown request

/-- In every reachable server, a received command finishes exactly when its set command has a first
argument and every number that it reads is readable. -/
theorem handle_returns_iff (steps : List Step) (responses : List Response) (server : Server)
    (reached : run step Server.new steps = .ok (responses, server)) (request : Request) :
    (∃ result, server.handle request = .ok result) ↔ request.Answerable :=
  handle_returns (reached_sound reached) request

/-- A request with fixed values of the clock, the draws and the files. -/
def plain (buffer : String) : Request := ⟨bytes buffer, 0, [], ⟨0, by decide⟩, fun _ => true⟩

/-- The iterations that read these commands one by one. -/
def commands (buffers : List String) : List Iteration := buffers.map fun buffer => ⟨[.receive (plain buffer)], 0⟩

theorem handle_returns_iff_started :
    ∃ responses server, run step Server.new [.event (.receive (plain "ZADD k 1 a\n"))] = .ok (responses, server) ∧
      ((∃ result, server.handle (plain "EXPIRE k 5\n") = .ok result) ↔ (plain "EXPIRE k 5\n").Answerable) :=
  ⟨_, _, rfl, handle_returns_iff [.event (.receive (plain "ZADD k 1 a\n"))] _ _ rfl (plain "EXPIRE k 5\n")⟩

/-- A set command without arguments reads beyond the end of its arguments. -/
theorem handle_of_bare_command :
    (plain "ZCARD").buffer ≠ [] ∧ (plain "ZCARD").buffer.length ≤ 1023 ∧
      Server.new.handle (plain "ZCARD") = .error .outOfBounds := by
  refine ⟨by decide, by decide, rfl⟩

end Server

end MySkipList
