/-
This file states the wire format of the set commands: which words make a whole command, and the text that a client
writes for a call.
-/

import MySkipList.Foundation.Words
import MySkipList.Specification.KeyedStore

namespace MySkipList

open Foundation

/-- The spellings of a command. -/
def Verb.spellings : Verb → List Str
  | .exit => [bytes "EXIT", bytes "exit", bytes "QUIT", bytes "quit"]
  | .save => [bytes "save", bytes "SAVE"]
  | .config => [bytes "CONFIG", bytes "config"]
  | .expire => [bytes "EXPIRE", bytes "expire"]
  | .zadd => [bytes "ZADD", bytes "zadd"]
  | .zscore => [bytes "ZSCORE", bytes "zscore"]
  | .zrem => [bytes "ZREM", bytes "zrem"]
  | .zcard => [bytes "ZCARD", bytes "zcard"]
  | .zdis => [bytes "ZDIS", bytes "zdis"]
  | .unknown => []

/-- The words of a whole set command with its key and its call. The draws are not sent. -/
inductive Phrase (draws : List Nat) : List Str → Str → Call → Prop where
  | zadd {cmd key text member score} (named : cmd ∈ Verb.spellings .zadd) (read : stoi text = some score) :
      Phrase draws [cmd, key, text, member] key (.insertElement member score draws)
  | zscore {cmd key member} (named : cmd ∈ Verb.spellings .zscore) :
      Phrase draws [cmd, key, member] key (.searchElement member)
  | zrem {cmd key member} (named : cmd ∈ Verb.spellings .zrem) :
      Phrase draws [cmd, key, member] key (.deleteElement member)
  | zcard {cmd key} (named : cmd ∈ Verb.spellings .zcard) : Phrase draws [cmd, key] key .length

/-- The words that a client writes for a call. -/
def Call.words (key : Str) : Call → List Str
  | .insertElement ele score _ => [bytes "ZADD", key, decimal score.val, ele]
  | .searchElement ele => [bytes "ZSCORE", key, ele]
  | .deleteElement ele => [bytes "ZREM", key, ele]
  | .length => [bytes "ZCARD", key]
  | .save => []

/-- One blank stands between two words. -/
def sentence : List Str → Str
  | [] => []
  | [word] => word
  | word :: rest => word ++ bytes " " ++ sentence rest

def Call.member : Call → Option Str
  | .insertElement ele _ _ => some ele
  | .searchElement ele => some ele
  | .deleteElement ele => some ele
  | _ => none

/-- A call that a command can carry: its draws are those of the command, and its element is a word without a zero
byte. -/
structure Call.Sendable (draws : List Nat) (call : Call) : Prop where
  command : call ≠ .save
  drawn : ∀ ele score other, call = .insertElement ele score other → other = draws
  solid : ∀ ele, call.member = some ele → Word ele ∧ cString ele = ele

end MySkipList
