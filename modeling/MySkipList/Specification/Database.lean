/-
This file states the purpose of the whole server: a database that keeps one lazy set for each key, a queue of
deadlines and the maximum of the sets. A step shows the calls of `write` on the socket and the files on the disk.
-/

import MySkipList.Construction.Server
import MySkipList.Specification.LazySet
import MySkipList.Specification.Schedule

namespace MySkipList

open Foundation

/-- What the clients and the disk see of one step. -/
structure Observation where
  writes : List Str
  files : Set (Str × Str)

namespace Observation

def silent : Observation := ⟨[], ∅⟩

def text (text : Str) : Observation := ⟨[text], ∅⟩

def number (value : Int) : Observation := ⟨[decimal value, [newline]], ∅⟩

end Observation

structure Database where
  sets : Str → Option (LazySet Str CInt)
  pending : List (Str × Int)
  maxMemory : Int
  stopServer : Bool
  timeout : Bool
  updateConfig : Bool
  control : Control

namespace Database

def new : Database := ⟨fun _ => none, [], 0, false, false, false, .processing⟩

/-- The line that answers a command with a wrong number of arguments, and the line for an unknown command. -/
def usage : Verb → Str
  | .config => bytes "Usage: CONFIG SET maxmemory [number]"
  | .expire => bytes "Usage: EXPIRE key seconds\n"
  | .zadd => bytes "Usage: ZADD key score member\n"
  | .zscore => bytes "Usage: ZSCORE key member\n"
  | .zrem => bytes "Usage: ZREM key member\n"
  | .zcard => bytes "Usage: ZCARD key\n"
  | .zdis => bytes "Usage: ZDIS key\n"
  | _ => bytes
      "Usage: ZADD(zadd) | ZSCORE(zscore) | ZREM(zrem) | ZCARD(zcard) | ZDIS(zdis) | CONFIG(config) | EXPIRE(expire)\n"

/-- The answer for a key without a set. -/
def missing : Verb → Str
  | .zrem => bytes "0\n"
  | .zcard => bytes "0\n"
  | .zdis => bytes "\n"
  | _ => bytes "-1\n"

/-- The sorted members of a set, one line for each. -/
def dump (set : LazySet Str CInt) : Str :=
  (BoundedSet.sorted set.members).flatMap fun pair => SkipList.dumpLine pair.1 pair.2

/-- One file for each set whose file opens. -/
def saved (database : Database) (opens : Str → Bool) : Set (Str × Str) :=
  {file | ∃ key set, database.sets key = some set ∧ opens (Server.fileName key) = true ∧
    file = (Server.fileName key, dump set)}

def config (database : Database) : List Str → Exec (Observation × Database)
  | [first, name, text] => do
      if first = bytes "SET" ∨ first = bytes "set" then
        if name = bytes "maxmemory" ∨ name = bytes "MAXMEMORY" then
          let value ← Server.number text
          if value.val < 0 then pure (.number 1, { database with updateConfig := true })
          else pure (.number 0, { database with maxMemory := value.val, updateConfig := true })
        else pure (.silent, { database with updateConfig := true })
      else pure (.silent, database)
  | _ => pure (.text (usage .config), database)

def expire (database : Database) (now : Int) : List Str → Exec (Observation × Database)
  | [key, text] => do
      let seconds ← Server.number text
      pure (.number 1, { database with pending := database.pending ++ [(key, now + seconds.val)] })
  | _ => pure (.text (usage .expire), database)

/-- A set command on one set. -/
def serve (action : Verb) (args : List Str) (set : LazySet Str CInt) : Exec (Observation × LazySet Str CInt) :=
  match action, args with
  | .zadd, [_, text, member] => do
      let score ← Server.number text
      let (result, set) := set.insertElement member score
      pure (.number result, set)
  | .zscore, [_, member] =>
      let (result, set) := set.searchElement Subtype.val member
      pure (.number result, set)
  | .zrem, [_, member] =>
      let (result, set) := set.deleteElement member
      pure (.number result, set)
  | .zcard, [_] => pure (.number ((set.members.length : Int).bmod (2 ^ 32)), set)
  | .zdis, [_] => pure (.text (bytes "1\n"), set)
  | action, _ => pure (.text (usage action), set)

/-- The set of the key of a command. `ZADD` starts with an empty set. -/
def located (database : Database) (action : Verb) (key : Str) : Option (LazySet Str CInt) :=
  match database.sets key with
  | some set => some set
  | none => if action = .zadd then some (.empty database.maxMemory) else none

/-- A set command changes the set of its first argument only, and without arguments it is undefined. -/
def zset (database : Database) (action : Verb) : List Str → Exec (Observation × Database)
  | [] => throw .outOfBounds
  | key :: rest =>
      match database.located action key with
      | none => pure (.text (missing action), database)
      | some set => do
          let (observation, set) ← serve action (key :: rest) set
          pure (observation, { database with sets := Function.update database.sets key (some set) })

def handle (database : Database) (request : Request) : Exec (Observation × Database) :=
  match verb request.cmd with
  | .exit => pure (.silent, { database with stopServer := true, control := .leaving })
  | .save => pure (⟨[bytes "OK\n"], database.saved request.opens⟩, database)
  | .config => database.config request.args
  | .expire => database.expire request.now request.args
  | action => database.zset action request.args

/-- An alarm starts the removal of due keys, and `SIGTERM` and `SIGINT` stop the server. -/
def receive (database : Database) (received : List Server.Signal) : Database :=
  { database with
    timeout := database.timeout || received.any (· matches .alarm)
    stopServer := database.stopServer || received.any fun signal => signal matches .terminate | .interrupt }

def process (database : Database) : Server.Event → Exec (Observation × Database)
  | .accept => pure (.silent, database)
  | .signals received => pure (.silent, database.receive received)
  | .closed => pure (.silent, database)
  | .receive request => database.handle request

/-- The deadlines at the front of the queue that are due remove the sets of their keys. -/
def removeExpired (database : Database) (now : Int) : Database :=
  let keys := (database.pending.takeWhile (Schedule.due now)).map Prod.fst
  { database with
    sets := fun key => if key ∈ keys then none else database.sets key
    pending := database.pending.dropWhile (Schedule.due now)
    timeout := false }

/-- Every set gets the maximum as its capacity. -/
def reconfigure (database : Database) : Database :=
  { database with
    sets := fun key => (database.sets key).map fun set => set.setMaxMemory database.maxMemory
    updateConfig := false }

def step (database : Database) : Server.Step → Exec (Observation × Database)
  | .event event => if database.control = .processing then database.process event else pure (.silent, database)
  | .removeExpired now =>
      pure (.silent, if database.control ≠ .halted ∧ database.timeout then database.removeExpired now else database)
  | .reconfigure =>
      if database.control = .halted then pure (.silent, database)
      else
        let settled := if database.updateConfig then database.reconfigure else database
        pure (.silent, { settled with control := if settled.stopServer then .halted else .processing })

end Database

end MySkipList
