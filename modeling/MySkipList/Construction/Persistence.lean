/-
This file models the file operations of `skiplist.h` for string elements and `int` scores. A file is
the list of its bytes.
-/

import MySkipList.Construction.SkipList
import MySkipList.Foundation.Text

namespace MySkipList

open Foundation

namespace SkipList

/-- The byte of the variable `delimiter`. -/
def delimiter : Byte := colon

/-- The line that `DumpFile` and `Save` write for one member. -/
def dumpLine (ele : Str) (score : CInt) : Str := ele ++ [delimiter] ++ decimal score.val ++ [newline]

/-- `Save` writes one line for each member of the lowest level. -/
def save (list : SkipList Str CInt) : Exec Str := do
  let members ← list.members
  pure (members.flatMap fun (ele, score) => dumpLine ele score)

/-- `DumpFile` writes the same bytes as `Save`, to `STORE_FILE`. -/
def dumpFile (list : SkipList Str CInt) : Exec Str := list.save

def isValidString (text : Str) : Bool := !text.isEmpty && text.contains delimiter

/-- A line without the delimiter leaves the key and the value of the line before it. -/
def getObjectFromString (text key value : Str) : Str × Str :=
  if isValidString text then
    (text.takeWhile fun byte => byte ≠ delimiter, (text.dropWhile fun byte => byte ≠ delimiter).drop 1)
  else (key, value)

/-- The loop of `LoadFile`. A line with an empty part and a line whose value `std::stoi` rejects are
skipped. The insertion of each line has its own draws. -/
def loadLines (draws : Nat → List Nat) : List Str → Str → Str → SkipList Str CInt → Exec (SkipList Str CInt)
  | [], _, _, list => pure list
  | line :: rest, key, val, list =>
      let (key, val) := getObjectFromString line key val
      if key = [] ∨ val = [] then loadLines draws rest key val list
      else
        match stoi val with
        | none => loadLines draws rest key val list
        | some value => do
            let (_, list) ← list.insertElement key value (draws rest.length)
            loadLines draws rest key val list

def loadFile (draws : Nat → List Nat) (file : Str) (list : SkipList Str CInt) : Exec (SkipList Str CInt) :=
  loadLines draws (lines file) [] [] list

end SkipList

end MySkipList
