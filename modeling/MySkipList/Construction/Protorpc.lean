/-
This file models `protorpc.h`, `protorpc.c` and the code around them that the server and the client share. A pointer into
a buffer is the part of the buffer from there on, and a null pointer is `none`.
-/

import MySkipList.Foundation.Memory
import MySkipList.Foundation.Text

namespace MySkipList

open Foundation

/-- The values of the type `unsigned int`. -/
abbrev CUInt := BitVec 32

/-- The conversion from `unsigned int` to `int`. -/
def CUInt.toCInt (value : CUInt) : CInt :=
  ⟨value.toInt, by have := BitVec.le_toInt value; omega, by have := BitVec.toInt_lt (x := value); omega⟩

/-- The conversion from `int` to `unsigned int`. -/
def CUInt.ofCInt (value : CInt) : CUInt := BitVec.ofInt 32 value.val

namespace Protorpc

def name : Str := bytes "HRPC"

def version : Byte := toByte 1

/-- The head has 4 bytes of protocol, 1 of version, 1 of flags, 2 reserved and 4 of length. -/
def headLength : Nat := 12

structure Head where
  protocol : Str
  version : Byte
  flags : Byte
  reserved : Str
  length : CUInt
  protocolSize : protocol.length = 4
  reservedSize : reserved.length = 2

structure Message where
  head : Head
  body : Option Str

/-- A message that `memset` has filled with zeros. -/
def Message.zero : Message where
  head := ⟨List.replicate 4 (toByte 0), toByte 0, toByte 0, List.replicate 2 (toByte 0), 0, rfl, rfl⟩
  body := none

def packageLength (head : Head) : CUInt := BitVec.ofNat 32 headLength + head.length

/-- The initialization sets every field but the flags. -/
def headInit (head : Head) : Head where
  protocol := name
  version := version
  flags := head.flags
  reserved := List.replicate 2 (toByte 0)
  length := 0
  protocolSize := by decide
  reservedSize := rfl

def messageInit (message : Message) : Message := ⟨headInit message.head, none⟩

def headCheck (head : Head) : Int :=
  if head.protocol ≠ name then -1 else if head.version ≠ version then -2 else 0

section Length

/-- A byte of the length field. -/
def octet (length : CUInt) (shift : Nat) : Byte := toByte ((length >>> shift) &&& 0xFF).toNat

/-- A byte as an `unsigned int`. -/
def widen (byte : Byte) : CUInt := BitVec.ofNat 32 byte.val

/-- The length field is written with its highest byte first. -/
def lengthOctets (length : CUInt) : Str := [octet length 24, octet length 16, octet length 8, octet length 0]

end Length

/-- The twelve bytes of a head. -/
def Head.octets (head : Head) : Str :=
  head.protocol ++ [head.version, head.flags] ++ head.reserved ++ lengthOctets head.length

/-- The head in the first twelve bytes of a buffer. -/
def Head.read : Str → Exec Head
  | first :: second :: third :: fourth :: version :: flags :: fifth :: sixth :: high :: upper :: lower :: low :: _ =>
      pure ⟨[first, second, third, fourth], version, flags, [fifth, sixth],
        widen high <<< 24 ||| widen upper <<< 16 ||| widen lower <<< 8 ||| widen low, rfl, rfl⟩
  | _ => throw .outOfBounds

/-- The result is the length of the package or a negative error. -/
def pack (msg : Option Message) (buf : Option Str) (len : CInt) : Exec (Int × Option Str) :=
  match msg, buf with
  | some msg, some memory => do
      if len.val = 0 then pure (-1, buf)
      else
        let packlen := packageLength msg.head
        if CUInt.ofCInt len < packlen then pure (-2, buf)
        else
          let memory ← store memory 0 msg.head.octets
          match msg.body with
          | some body =>
              if msg.head.length = 0 then pure (packlen.toInt, some memory)
              else
                let body ← load body 0 msg.head.length.toNat
                let memory ← store memory headLength body
                pure (packlen.toInt, some memory)
          | none => pure (packlen.toInt, some memory)
  | _, _ => pure (-1, buf)

/-- The body of the message is not copied: it points into the buffer. -/
def unpack (msg : Option Message) (buf : Option Str) (len : CInt) : Exec (Int × Option Message) :=
  match msg, buf with
  | some message, some memory => do
      if len.val = 0 then pure (-1, msg)
      else if len.val < headLength then pure (-2, msg)
      else
        let head ← Head.read memory
        let packlen := packageLength head
        if CUInt.ofCInt len < packlen then pure (-3, some ⟨head, message.body⟩)
        else pure (packlen.toInt, some ⟨head, if headLength < len.val then some (memory.drop headLength) else message.body⟩)
  | _, _ => pure (-1, msg)

/-- `HV_STACK_ALLOC` takes the memory from the heap if 1024 bytes on the stack do not suffice. -/
def stackAlloc (size : Int) : Str := List.replicate (max 1024 size.toNat) (toByte 0)

/-- Both sides write a message so: `pack` writes the head, `SerializeToArray` writes the body behind it, and the channel
takes the package. The list has the calls of `write`. -/
def send (head : Head) (text : Str) : Exec (List Str) := do
  let msg := messageInit ⟨head, none⟩
  let msg := { msg with head := { msg.head with length := BitVec.ofNat 32 text.length } }
  let size := (packageLength msg.head).toCInt
  let (packlen, writebuf) ← pack (some msg) (some (stackAlloc size.val)) size
  match writebuf with
  | none => throw .nullPointer
  | some writebuf =>
      if 0 < packlen then
        let writebuf ← store writebuf headLength text
        pure [writebuf.take packlen.toNat]
      else pure []

/-- `ParseFromArray` reads the announced number of bytes. -/
def Message.text (msg : Message) : Exec Str :=
  match msg.body with
  | some body => load body 0 msg.head.length.toNat
  | none => if msg.head.length = 0 then pure [] else throw .nullPointer

/-- Both sides read a message so, and `none` is an early return. A failed assertion ends the process. -/
def receive (buf : Str) : Exec (Option (Head × Str)) := do
  let (packlen, msg) ← unpack (some .zero) (some buf) (CUInt.toCInt (BitVec.ofNat 32 buf.length))
  match msg with
  | none => throw .nullPointer
  | some msg =>
      if packlen < 0 then pure none
      else if packlen ≠ buf.length then throw .uncaughtException
      else if headCheck msg.head ≠ 0 then pure none
      else
        let text ← msg.text
        pure (some (msg.head, text))

/-- The network library splits the stream of bytes at the length fields, and it hands over at most 2 MiB at once. -/
structure Package where
  buf : Str
  head : Head
  rest : Str
  split : buf = head.octets ++ rest
  whole : rest.length = head.length.toNat
  bounded : buf.length ≤ 2 ^ 21

end Protorpc

end MySkipList
