/-
This file models the event loop of `server.cpp` and the part of `configs.h` that it uses. A client
command is one received buffer. The clock, the random draws and the success of opening a file are
inputs of each command.
-/

import MySkipList.Construction.Persistence
import MySkipList.Construction.Timer

namespace MySkipList

open Foundation

structure Configs where
  maxMemory : Int

/-- A negative maximum is rejected with the result 1. -/
def Configs.setMaxMemory (configs : Configs) (maxMemory : Int) : Int × Configs :=
  if maxMemory < 0 then (1, configs) else (0, ⟨maxMemory⟩)

/-- The commands that the server tells apart. -/
inductive Verb where
  | exit
  | save
  | config
  | expire
  | zadd
  | zscore
  | zrem
  | zcard
  | zdis
  | unknown
  deriving DecidableEq

/-- The comparisons of the variable `cmd`. -/
def verb (cmd : Str) : Verb :=
  if cmd = bytes "EXIT" ∨ cmd = bytes "exit" ∨ cmd = bytes "QUIT" ∨ cmd = bytes "quit" then .exit
  else if cmd = bytes "save" ∨ cmd = bytes "SAVE" then .save
  else if cmd = bytes "CONFIG" ∨ cmd = bytes "config" then .config
  else if cmd = bytes "EXPIRE" ∨ cmd = bytes "expire" then .expire
  else if cmd = bytes "ZADD" ∨ cmd = bytes "zadd" then .zadd
  else if cmd = bytes "ZSCORE" ∨ cmd = bytes "zscore" then .zscore
  else if cmd = bytes "ZREM" ∨ cmd = bytes "zrem" then .zrem
  else if cmd = bytes "ZCARD" ∨ cmd = bytes "zcard" then .zcard
  else if cmd = bytes "ZDIS" ∨ cmd = bytes "zdis" then .zdis
  else .unknown

/-- A received command with the values that its execution reads from outside. -/
structure Request where
  buffer : Str
  now : Int
  draws : List Nat
  uninitialized : CInt
  opens : Str → Bool

/-- The received bytes become a C string, and the stream extracts its tokens. -/
def Request.words (request : Request) : List Str := tokens (cString request.buffer)

def Request.cmd (request : Request) : Str := request.words.headD []

def Request.args (request : Request) : List Str := request.words.tail

/-- The calls of `write` on the socket, and the files that `SAVE` writes. -/
structure Response where
  writes : List Str
  files : List (Str × Str)

/-- A branch that sends nothing. -/
def Response.silent : Response := ⟨[], []⟩

/-- A call `write(sockfd, text, count)`. -/
def Response.text (text : Str) (count : Nat) : Response := ⟨[text.take count], []⟩

/-- The number and the line break are two calls of `write`. -/
def Response.number (value : Int) : Response := ⟨[decimal value, [newline]], []⟩

/-- The place in the event loop: in the loop over the events, after its `break`, or after the loop
over the iterations. -/
inductive Control where
  | processing
  | leaving
  | halted
  deriving DecidableEq

structure Server where
  map : Dictionary Str (SkipList Str CInt)
  timer : Timer Str
  configs : Configs
  stopServer : Bool
  timeout : Bool
  updateConfig : Bool
  control : Control

namespace Server

def new : Server := ⟨∅, .new, ⟨0⟩, false, false, false, .processing⟩

/-- The macro `MAX_LEVEL`. -/
def maxLevel : Nat := 6

/-- An index beyond the arguments is undefined. -/
def argument (args : List Str) (index : Nat) : Exec Str :=
  match args[index]? with
  | some arg => pure arg
  | none => throw .outOfBounds

/-- The exceptions of `std::stoi` reach `main`, where nobody catches them. -/
def number (text : Str) : Exec CInt :=
  match stoi text with
  | some value => pure value
  | none => throw .uncaughtException

/-- The file of one set: `FILE_DIR`, the key and the suffix. -/
def fileName (key : Str) : Str := bytes "./store/" ++ key ++ bytes ".txt"

/-- The loop of `SAVE`. A file that does not open is skipped. -/
def saveAll (opens : Str → Bool) (map : Dictionary Str (SkipList Str CInt)) : List Str → Exec (List (Str × Str))
  | [] => pure []
  | key :: rest =>
      match map.lookup key with
      | none => saveAll opens map rest
      | some list => do
          if opens (fileName key) then
            let written ← list.save
            let files ← saveAll opens map rest
            pure ((fileName key, written) :: files)
          else saveAll opens map rest

def save (server : Server) (request : Request) : Exec (Response × Server) := do
  let files ← saveAll request.opens server.map server.map.keys
  pure ({ Response.text (bytes "OK\n") 3 with files := files }, server)

/-- The usage text of `CONFIG` has 37 bytes, of which the server sends 36. -/
def config (server : Server) (args : List Str) : Exec (Response × Server) := do
  if args.length ≠ 3 then pure (.text (bytes "Usage: CONFIG SET maxmemory [number]\n") 36, server)
  else
    let action ← argument args 0
    if action = bytes "SET" ∨ action = bytes "set" then
      let name ← argument args 1
      if name = bytes "maxmemory" ∨ name = bytes "MAXMEMORY" then
        let maxMemory ← number (← argument args 2)
        let (result, configs) := server.configs.setMaxMemory maxMemory.val
        pure (.number result, { server with configs := configs, updateConfig := true })
      else pure (.silent, { server with updateConfig := true })
    else pure (.silent, server)

/-- The deadline is set whether the key exists or not. -/
def expire (server : Server) (args : List Str) (now : Int) : Exec (Response × Server) := do
  if args.length ≠ 2 then pure (.text (bytes "Usage: EXPIRE key seconds\n") 26, server)
  else
    let key ← argument args 0
    let seconds ← number (← argument args 1)
    let (result, timer) ← server.timer.push key seconds.val now
    pure (.number result, { server with timer := timer })

/-- The replies for a key that has no set. -/
def missing : Verb → Response
  | .zrem => .text (bytes "0\n") 2
  | .zcard => .text (bytes "0\n") 2
  | .zscore => .text (bytes "-1\n") 3
  | .zdis => .text (bytes "\n") 1
  | _ => .text (bytes "-1\n") 3

/-- The chain of set commands on the set of the key. -/
def dispatch (action : Verb) (args : List Str) (draws : List Nat) (list : SkipList Str CInt) :
    Exec (Response × SkipList Str CInt) :=
  match action with
  | .zadd => do
      if args.length ≠ 3 then pure (.text (bytes "Usage: ZADD key score member\n") 29, list)
      else
        let member ← argument args 2
        let score ← number (← argument args 1)
        let (result, list) ← list.insertElement member score draws
        pure (.number result, list)
  | .zscore => do
      if args.length ≠ 2 then pure (.text (bytes "Usage: ZSCORE key member\n") 25, list)
      else
        let (score, list) ← list.searchElement Subtype.val (← argument args 1)
        pure (.number score, list)
  | .zrem => do
      if args.length ≠ 2 then pure (.text (bytes "Usage: ZREM key member\n") 23, list)
      else
        let (result, list) ← list.deleteElement (← argument args 1)
        pure (.number result, list)
  | .zcard => do
      if args.length ≠ 1 then pure (.text (bytes "Usage: ZCARD key\n") 17, list)
      else pure (.number list.lengthOf, list)
  | .zdis => do
      if args.length ≠ 1 then pure (.text (bytes "Usage: ZDIS key\n") 16, list)
      else
        let _ ← list.displayList
        pure (.text (bytes "1\n") 2, list)
  | _ => pure (.text (bytes
      "Usage: ZADD(zadd) | ZSCORE(zscore) | ZREM(zrem) | ZCARD(zcard) | ZDIS(zdis) | CONFIG(config) | EXPIRE(expire)\n")
      110, list)

/-- The part of the chain on a set that exists. -/
def access (server : Server) (action : Verb) (request : Request) (key : Str) (list : SkipList Str CInt) :
    Exec (Response × Server) := do
  let (response, list) ← dispatch action request.args request.draws list
  pure (response, { server with map := server.map.insert key list })

/-- The set commands read their first argument before any test of the number of arguments. Only `ZADD`
creates the set of a key that has none. -/
def zset (server : Server) (action : Verb) (request : Request) : Exec (Response × Server) := do
  let key ← argument request.args 0
  match server.map.lookup key with
  | some list => server.access action request key list
  | none =>
      if action = .zadd then
        let list ← SkipList.new maxLevel server.configs.maxMemory request.uninitialized
        { server with map := server.map.insert key list }.access action request key list
      else pure (missing action, server)

/-- The execution of one received command. -/
def handle (server : Server) (request : Request) : Exec (Response × Server) :=
  match verb request.cmd with
  | .exit => pure (.silent, { server with stopServer := true, control := .leaving })
  | .save => server.save request
  | .config => server.config request.args
  | .expire => server.expire request.args request.now
  | action => server.zset action request

inductive Signal where
  | alarm
  | child
  | hangup
  | terminate
  | interrupt

def signal (server : Server) : Signal → Server
  | .alarm => { server with timeout := true }
  | .child => server
  | .hangup => server
  | .terminate => { server with stopServer := true }
  | .interrupt => { server with stopServer := true }

/-- The events of one wait: a new connection, the received signals, a connection without data, or
a received command. -/
inductive Event where
  | accept
  | signals (received : List Signal)
  | closed
  | receive (request : Request)

def process (server : Server) : Event → Exec (Response × Server)
  | .accept => pure (.silent, server)
  | .signals received => pure (.silent, received.foldl signal server)
  | .closed => pure (.silent, server)
  | .receive request => server.handle request

/-- The removal of a key from the map runs the destructor of its set. -/
def eraseKey (server : Server) (key : Str) : Exec Server :=
  match server.map.lookup key with
  | none => pure server
  | some list => do
      let _ ← list.destroy
      pure { server with map := server.map.erase key }

def eraseKeys : List Str → Server → Exec Server
  | [], server => pure server
  | key :: rest, server => do
      let server ← server.eraseKey key
      eraseKeys rest server

/-- The first block after the events removes the keys whose deadlines are due. -/
def removeExpired (server : Server) (now : Int) : Exec Server :=
  if server.timeout then do
    let (keys, timer) ← server.timer.tick now
    let server ← eraseKeys keys { server with timer := timer }
    pure { server with timeout := false }
  else pure server

/-- `UpdateMaxMemory` visits every set of the map. -/
def updateMaxMemory (maxMemory : Int) (map : Dictionary Str (SkipList Str CInt)) :
    Exec (Dictionary Str (SkipList Str CInt)) :=
  map.updateAll fun list => do
    let (_, list) ← list.setMaxMemory maxMemory
    pure list

/-- The second block after the events reloads the configuration. -/
def reconfigure (server : Server) : Exec Server :=
  if server.updateConfig then do
    let map ← updateMaxMemory server.configs.maxMemory server.map
    pure { server with map := map, updateConfig := false }
  else pure server

/-- The steps of the event loop. -/
inductive Step where
  | event (event : Event)
  | removeExpired (now : Int)
  | reconfigure

/-- After `break` the rest of the events is lost, and after the last iteration nothing happens. -/
def step (server : Server) : Step → Exec (Response × Server)
  | .event event => if server.control = .processing then server.process event else pure (.silent, server)
  | .removeExpired now => do
      if server.control = .halted then pure (.silent, server)
      else
        let server ← server.removeExpired now
        pure (.silent, server)
  | .reconfigure => do
      if server.control = .halted then pure (.silent, server)
      else
        let server ← server.reconfigure
        pure (.silent, { server with control := if server.stopServer then .halted else .processing })

/-- The events of one wait and the clock of the block after them. -/
structure Iteration where
  events : List Event
  now : Int

def Iteration.steps (iteration : Iteration) : List Step :=
  iteration.events.map .event ++ [.removeExpired iteration.now, .reconfigure]

/-- The loop over the iterations, from the start of the server. -/
def loop (iterations : List Iteration) : Exec (List Response × Server) :=
  run step new (iterations.flatMap Iteration.steps)

end Server

end MySkipList
