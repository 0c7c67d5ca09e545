/-
This file states the purpose of the server: a store that keeps one bounded set for each key. A key
that was never used or was removed has the empty set.
-/

import MySkipList.Construction.Server
import MySkipList.Specification.BoundedSet

namespace MySkipList

open Foundation

/-- The key and the call of a command that has all of its arguments. -/
def Request.call (request : Request) : Option (Str × Call) :=
  match verb request.cmd, request.args with
  | .zadd, [key, text, member] => (stoi text).map fun score => (key, .insertElement member score request.draws)
  | .zscore, [key, member] => some (key, .searchElement member)
  | .zrem, [key, member] => some (key, .deleteElement member)
  | .zcard, [key] => some (key, .length)
  | _, _ => none

/-- A whole command of a client. -/
structure Command where
  request : Request
  key : Str
  call : Call
  whole : request.call = some (key, call)

/-- A client sends a command, or the timer removes a key. -/
inductive Deed where
  | command (command : Command)
  | erase (key : Str)

def Deed.key : Deed → Str
  | .command sent => sent.key
  | .erase key => key

/-- The bytes that a client receives. -/
def Answer.reply : Answer → Str
  | .number value => decimal value ++ [newline]
  | .text written => written

namespace KeyedStore

/-- One deed on the set of its key. -/
def serve (capacity : Int) (pairs : List (Str × CInt)) : Deed → Str × List (Str × CInt)
  | .command command =>
      let result := BoundedSet.invoke Int.ofNat capacity pairs command.call
      (result.1.reply, result.2)
  | .erase _ => ([], [])

/-- A deed changes the set of its key only. -/
def step (capacity : Int) : (Str → List (Str × CInt)) → Deed → Str × (Str → List (Str × CInt)) :=
  keyedStep Deed.key (serve capacity)

end KeyedStore

end MySkipList
