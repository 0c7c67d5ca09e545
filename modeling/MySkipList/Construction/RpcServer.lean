/-
This file models `protorpc_server.cpp`, its router and its handlers. The classes that the compiler of protocol buffers
generates are not in the repository, so their serializations and their parsers are parameters.
-/

import MySkipList.Construction.Protorpc

namespace MySkipList.Protorpc

open Foundation

/-- The values of the type `int64`. -/
abbrev CInt64 := { value : Int // -2 ^ 63 ≤ value ∧ value < 2 ^ 63 }

structure Error where
  code : CInt
  message : Str
  deriving DecidableEq

structure Request where
  id : BitVec 64
  method : Str
  params : List Str
  deriving DecidableEq

structure Response where
  id : BitVec 64
  result : Str
  error : Option Error
  deriving DecidableEq

structure CalcParam where
  num : CInt64
  deriving DecidableEq

structure CalcResult where
  num : CInt64
  deriving DecidableEq

structure LoginParam where
  username : Str
  password : Str
  deriving DecidableEq

structure LoginResult where
  userId : BitVec 64
  token : Str
  deriving DecidableEq

/-- The generated code of a message type. A serialized message has less than 2 GiB. -/
structure Codec (Message : Type) where
  serialize : Message → Str
  parse : Str → Option Message
  bounded : ∀ message, (serialize message).length < 2 ^ 31

structure Protobuf where
  request : Codec Request
  response : Codec Response
  calcParam : Codec CalcParam
  calcResult : Codec CalcResult
  loginParam : Codec LoginParam
  loginResult : Codec LoginResult

def errorResponse (res : Response) (code : CInt) (message : Str) : Response :=
  { res with error := some ⟨code, message⟩ }

def notFound (res : Response) : Response := errorResponse res ⟨404, by decide⟩ (bytes "Not Found")

def badRequest (res : Response) : Response := errorResponse res ⟨400, by decide⟩ (bytes "Bad Request")

/-- The overflow of a signed number is undefined. -/
def signed (value : Int) : Exec CInt64 :=
  if inside : -2 ^ 63 ≤ value ∧ value < 2 ^ 63 then pure ⟨value, inside⟩ else throw .signedOverflow

abbrev Handler := Protobuf → Request → Response → Exec Response

/-- The handlers of `calc.h` differ in their operation, and one of them refuses some numbers. -/
def calcWith (refuses : Int → Bool) (operation : Int → Int → Int) : Handler := fun protobuf req res =>
  match req.params with
  | [first, second] =>
      match protobuf.calcParam.parse first, protobuf.calcParam.parse second with
      | some param1, some param2 =>
          if refuses param2.num.val then pure (badRequest res)
          else do
            let num ← signed (operation param1.num.val param2.num.val)
            pure { res with result := protobuf.calcResult.serialize ⟨num⟩ }
      | _, _ => pure (badRequest res)
  | _ => pure (badRequest res)

def calcAdd : Handler := calcWith (fun _ => false) (· + ·)

def calcSub : Handler := calcWith (fun _ => false) (· - ·)

def calcMul : Handler := calcWith (fun _ => false) (· * ·)

/-- The division truncates towards zero. -/
def calcDiv : Handler := calcWith (fun num => num = 0) Int.tdiv

def login : Handler := fun protobuf req res =>
  match req.params with
  | [] => pure (badRequest res)
  | first :: _ =>
      match protobuf.loginParam.parse first with
      | none => pure (badRequest res)
      | some param =>
          pure { res with result := protobuf.loginResult.serialize ⟨123456, param.username ++ colon :: param.password⟩ }

def router : List (Str × Handler) :=
  [(bytes "add", calcAdd), (bytes "sub", calcSub), (bytes "mul", calcMul), (bytes "div", calcDiv), (bytes "login", login)]

/-- The first entry of the router with the name of the method answers. The comparison ends at a zero byte. -/
def route (protobuf : Protobuf) (req : Request) (res : Response) : Exec Response :=
  match router.find? fun entry => entry.1 = cString req.method with
  | some entry => entry.2 protobuf req res
  | none => pure (notFound res)

/-- The answer to the body of a request. A body that is not a request is answered without its number. -/
def respond (protobuf : Protobuf) (text : Str) : Exec Response :=
  match protobuf.request.parse text with
  | some req => route protobuf req ⟨req.id, [], none⟩
  | none => pure (badRequest ⟨0, [], none⟩)

/-- The result has the calls of `write` of the channel. -/
def handleMessage (protobuf : Protobuf) (buf : Str) : Exec (List Str) := do
  match ← receive buf with
  | none => pure []
  | some (head, text) =>
      let res ← respond protobuf text
      send head (protobuf.response.serialize res)

end MySkipList.Protorpc
