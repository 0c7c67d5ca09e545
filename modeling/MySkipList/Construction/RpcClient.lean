/-
This file models `protorpc_client.cpp`: any number of threads in `call` and the thread of the event loop in `onMessage`
share the table of the calls. Every statement and every section under the mutex is one step, and the scheduler chooses
the next step. A wait may end at any time.
-/

import MySkipList.Construction.RpcServer

namespace MySkipList.Protorpc

open Foundation

inductive ConnectState where
  | initialized
  | connecting
  | connected
  | disconnected
  deriving DecidableEq

/-- The places in `call`: the increment of `s_id`, the insertion into the table, the write, the wait, the section that
erases the entry of the table, and the end. -/
inductive CallPhase where
  | numbering
  | storing
  | writing
  | waiting
  | erasing
  | returned
  deriving DecidableEq

/-- A call with its request, the head on its stack before the initialization, the response in its context, and its local
variable `res`. -/
structure Call where
  phase : CallPhase
  req : Request
  head : Head
  context : Option Response
  res : Option Response

/-- The places in `onMessage`: before the message, before the lock with a parsed response, and after the lock with the
context of a call. -/
inductive Loop where
  | idle
  | locking (res : Response)
  | storing (index : Nat) (res : Response)

/-- The context of a call is named by the number of the call. -/
structure Client where
  connectState : ConnectState
  sId : BitVec 64
  calls : BitVec 64 → Option Nat
  callsMutex : Bool
  threads : List Call
  loop : Loop

/-- What the calls and the event loop do: a call is refused without a connection, a call writes a package, the loop
stores a response in the context of a call or finds no call for it, and a call that had a connection returns. -/
inductive CallEvent where
  | refused (index : Nat)
  | written (index : Nat) (buf : Str)
  | stored (index : Nat) (res : Response)
  | unknown (res : Response)
  | returned (index : Nat) (res : Option Response)

namespace Client

def new : Client := ⟨.initialized, 0, fun _ => none, false, [], .idle⟩

def place (client : Client) (index : Nat) (call : Call) : Client :=
  { client with threads := client.threads.set index call }

/-- The table and the event loop share the ownership of a context. The call has only a plain pointer to it. -/
def owned (client : Client) (index : Nat) (call : Call) : Bool :=
  client.calls call.req.id = some index ||
    match client.loop with
    | .storing other _ => other = index
    | _ => false

/-- One step of a call. The insertion into the table is one step although the source does not lock the mutex for it, so
its data race with the other threads is left out. -/
def advance (protobuf : Protobuf) (client : Client) (index : Nat) (call : Call) : Exec (List CallEvent × Client) :=
  match call.phase with
  | .numbering =>
      let id := client.sId + 1
      pure ([], { client.place index { call with phase := .storing, req := { call.req with id := id } } with sId := id })
  | .storing =>
      pure ([], { client.place index { call with phase := .writing } with
        calls := Function.update client.calls call.req.id (some index) })
  | .writing => do
      let written ← send call.head (protobuf.request.serialize call.req)
      pure (written.map fun buf => .written index buf, client.place index { call with phase := .waiting })
  | .waiting =>
      if client.owned index call then
        pure ([], client.place index { call with phase := .erasing, res := call.context })
      else throw .danglingPointer
  | .erasing =>
      if client.callsMutex then pure ([], client)
      else
        pure ([.returned index call.res], { client.place index { call with phase := .returned } with
          calls := Function.update client.calls call.req.id none })
  | .returned => pure ([], client)

/-- A message arrives while the event loop is idle. -/
def onMessage (protobuf : Protobuf) (client : Client) (package : Package) : Exec Client := do
  match ← receive package.buf with
  | none => pure client
  | some (_, text) =>
      match protobuf.response.parse text with
      | none => pure client
      | some res => pure { client with loop := .locking res }

/-- One step of the event loop. It returns with the mutex if the table has no call for the response. -/
def deliver (client : Client) : List CallEvent × Client :=
  match client.loop with
  | .idle => ([], client)
  | .locking res =>
      if client.callsMutex then ([], client)
      else
        match client.calls res.id with
        | none => ([.unknown res], { client with callsMutex := true, loop := .idle })
        | some index => ([], { client with loop := .storing index res })
  | .storing index res =>
      match client.threads[index]? with
      | none => ([], { client with loop := .idle })
      | some call => ([.stored index res], { client.place index { call with context := some res } with loop := .idle })

/-- The scheduler lets the application connect or call a method, a call take a step, the event loop report a change of
the connection or receive a message, or the event loop take a step. -/
inductive Action where
  | connect
  | call (method : Str) (params : List Str) (uninitialized : Head)
  | advance (index : Nat)
  | onConnection (connected : Bool)
  | onMessage (package : Package)
  | deliver

/-- The events of the connection wait until the loop is idle. A call without a connection returns at once. -/
def step (protobuf : Protobuf) (client : Client) : Action → Exec (List CallEvent × Client)
  | .connect => pure ([], { client with connectState := .connecting })
  | .call method params uninitialized =>
      if client.connectState = .connected then
        pure ([], { client with
          threads := client.threads ++ [⟨.numbering, ⟨0, method, params⟩, uninitialized, none, none⟩] })
      else
        pure ([.refused client.threads.length], { client with
          threads := client.threads ++ [⟨.returned, ⟨0, method, params⟩, uninitialized, none, none⟩] })
  | .advance index =>
      match client.threads[index]? with
      | none => pure ([], client)
      | some call => client.advance protobuf index call
  | .onConnection connected =>
      match client.loop with
      | .idle => pure ([], { client with connectState := if connected then .connected else .disconnected })
      | _ => pure ([], client)
  | .onMessage package => do
      match client.loop with
      | .idle =>
          let client ← client.onMessage protobuf package
          pure ([], client)
      | _ => pure ([], client)
  | .deliver => pure client.deliver

end Client

/-- What `calc` reports for the response of its call. -/
inductive CalcReport where
  | kRpcSuccess (out : CInt)
  | kRpcTimeout
  | kRpcError
  | kRpcNoResult
  | kRpcParseError
  deriving DecidableEq

def widenInt (num : CInt) : CInt64 :=
  ⟨num.val, by have := num.property.1; omega, by have := num.property.2; omega⟩

/-- The request of `calc` with the number that `call` gives it. -/
def calcRequest (protobuf : Protobuf) (id : BitVec 64) (method : Str) (num1 num2 : CInt) : Request :=
  ⟨id, method, [protobuf.calcParam.serialize ⟨widenInt num1⟩, protobuf.calcParam.serialize ⟨widenInt num2⟩]⟩

/-- The number is cut to the 32 bits of its reference parameter. -/
def calcReport (protobuf : Protobuf) : Option Response → CalcReport
  | none => .kRpcTimeout
  | some res =>
      if res.error.isSome then .kRpcError
      else if res.result.isEmpty then .kRpcNoResult
      else
        match protobuf.calcResult.parse res.result with
        | none => .kRpcParseError
        | some result => .kRpcSuccess (CUInt.toCInt (BitVec.ofInt 32 result.num.val))

end MySkipList.Protorpc
