/-
This file models a session of one client: the loop of `client.cpp` and the handler of `server.cpp` exchange bytes
over a connection. Every call of `write`, `read` and `recv` is one step, and the scheduler chooses the next step.
-/

import MySkipList.Construction.Server

namespace MySkipList

open Foundation

/-- The set commands and `EXPIRE` with all their arguments and with readable numbers. -/
def wellFormed : List Str → Bool
  | [] => false
  | cmd :: args =>
      match verb cmd, args with
      | .zadd, [_, score, _] => (stoi score).isSome
      | .zrem, [_, _] => true
      | .zscore, [_, _] => true
      | .zcard, [_] => true
      | .expire, [_, seconds] => (stoi seconds).isSome
      | _, _ => false

/-- A line that `getline` stores in the buffer of 1024 bytes. -/
structure Line where
  buf : Str
  fits : buf.length ≤ 1023
  formed : wellFormed (tokens (cString buf)) = true

/-- The client writes as many bytes as `strlen` counts. -/
def Line.text (line : Line) : Str := cString line.buf

/-- The bytes on their way to the server, the calls of `write` that the handler has still to make, the bytes
on their way to the client, and whether the client is in its `read`. -/
structure Session where
  server : Server
  requests : Str
  writes : List Str
  replies : Str
  reading : Bool

namespace Session

def start (server : Server) : Session := ⟨server, [], [], [], false⟩

inductive Action where
  | send (line : Line)
  | recv (now : Int) (draws : List Nat) (uninitialized : CInt) (opens : Str → Bool)
  | write
  | read

/-- What a step does: the client sends a command, the handler executes received bytes and has an answer to
write, or the client prints what it has read. -/
inductive Event where
  | idle
  | sent (text : Str)
  | handled (text answer : Str)
  | printed (text : Str)

/-- A step that is not possible does nothing. The handler receives again only after its last `write`. -/
def step (session : Session) : Action → Exec (Event × Session)
  | .send line =>
      if session.reading then pure (.idle, session)
      else pure (.sent line.text, { session with requests := session.requests ++ line.text, reading := true })
  | .recv now draws uninitialized opens => do
      if session.requests.isEmpty || !session.writes.isEmpty || session.server.control != .processing then
        pure (.idle, session)
      else
        let buf := session.requests.take 1023
        let (response, server) ← session.server.handle ⟨buf, now, draws, uninitialized, opens⟩
        pure (.handled buf response.writes.flatten,
          { session with server := server, requests := session.requests.drop 1023, writes := response.writes })
  | .write =>
      match session.writes with
      | [] => pure (.idle, session)
      | text :: rest => pure (.idle, { session with writes := rest, replies := session.replies ++ text })
  | .read =>
      if session.reading && !session.replies.isEmpty then
        pure (.printed (session.replies.take 1024),
          { session with replies := session.replies.drop 1024, reading := false })
      else pure (.idle, session)

end Session

end MySkipList
