import MySkipList.Construction.RpcClient
import MySkipList.Proof.Protorpc.Server

namespace MySkipList.Protorpc
open Foundation

/-- The generated code reads what it has written, and the text fits into a package. -/
structure Codec.Carries {Message : Type} (codec : Codec Message) (message : Message) : Prop where
  recovers : codec.parse (codec.serialize message) = some message
  fits : headLength + (codec.serialize message).length ≤ 2 ^ 21

section Packages

/-- The package of a text that fits. -/
def packageOf (head : Head) (text : Str) (fits : headLength + text.length ≤ 2 ^ 21) : Package where
  buf := (headOf head text).octets ++ text
  head := headOf head text
  rest := text
  split := rfl
  whole := (headOf_length head (by omega)).symm
  bounded := by rw [List.length_append, octets_length]; exact fits

theorem send_package (head : Head) {text : Str} (fits : headLength + text.length ≤ 2 ^ 21) :
    send head text = .ok [(packageOf head text fits).buf] := by
  rw [send_eq head (by omega), if_pos (by omega)]
  rfl

theorem receive_packageOf (head : Head) {text : Str} (fits : headLength + text.length ≤ 2 ^ 21) :
    receive (packageOf head text fits).buf = .ok (some (headOf head text, text)) := by
  have received := receive_package (packageOf head text fits)
  rw [show headCheck (packageOf head text fits).head = 0 from headOf_check head text] at received
  exact received

/-- The server answers a request that it can read with the package of its answer. -/
theorem handleMessage_answer {protobuf : Protobuf} {req : Request} {answer : Response} (head : Head)
    (carried : protobuf.request.Carries req) (answered : route protobuf req ⟨req.id, [], none⟩ = .ok answer)
    (replied : protobuf.response.Carries answer) :
    handleMessage protobuf (packageOf head (protobuf.request.serialize req) carried.fits).buf =
      .ok [(packageOf (headOf head (protobuf.request.serialize req)) (protobuf.response.serialize answer)
        replied.fits).buf] := by
  rw [handleMessage, receive_packageOf, Exec.ok_bind]
  simp only [respond, carried.recovers, answered, Exec.ok_bind]
  exact send_package _ replied.fits

end Packages

section Numbers

@[simp] theorem widenInt_val (num : CInt) : (widenInt num).val = num.val := by
  rw [widenInt]

/-- Two numbers of the client have a result that is an `int64`. -/
theorem computed_inside (method : Str) (num1 num2 : CInt) {value : Int}
    (found : computed method num1.val num2.val = some value) : ¬ Overflows value := by
  obtain ⟨low1, high1⟩ := num1.property
  obtain ⟨low2, high2⟩ := num2.property
  have size1 : num1.val.natAbs ≤ 2 ^ 31 := by omega
  have size2 : num2.val.natAbs ≤ 2 ^ 31 := by omega
  suffices bound : value.natAbs ≤ 2 ^ 62 by
    rw [Overflows, not_not]
    omega
  unfold computed at found
  split_ifs at found
  · obtain rfl := Option.some.inj found
    omega
  · obtain rfl := Option.some.inj found
    omega
  · obtain rfl := Option.some.inj found
    rw [Int.natAbs_mul]
    exact (Nat.mul_le_mul size1 size2).trans (by decide)
  · obtain rfl := Option.some.inj found
    rw [Int.natAbs_tdiv]
    exact (Nat.div_le_self _ _).trans (size1.trans (by decide))

/-- The answer to a request of `calc`. -/
theorem route_calc {protobuf : Protobuf} (id : BitVec 64) {method : Str} {num1 num2 : CInt}
    (other : cString method ≠ bytes "login") (first : protobuf.calcParam.Carries ⟨widenInt num1⟩)
    (second : protobuf.calcParam.Carries ⟨widenInt num2⟩) :
    ∃ answer, route protobuf (calcRequest protobuf id method num1 num2) ⟨id, [], none⟩ = .ok answer ∧ answer.id = id ∧
      match computed (cString method) num1.val num2.val with
      | none => answer.error.isSome = true
      | some value => answer.error = none ∧
          ∃ num : CInt64, num.val = value ∧ answer.result = protobuf.calcResult.serialize ⟨num⟩ := by
  have numbers : Numbers protobuf (calcRequest protobuf id method num1 num2) (widenInt num1) (widenInt num2) :=
    ⟨_, _, rfl, first.recovers, second.recovers⟩
  rcases route_cases (calcRequest protobuf id method num1 num2) other with
    ⟨refuses, operation, routed, value⟩ | ⟨routed, value⟩
  · have found := value num1.val num2.val
    rw [routed, calcWith_numbers numbers, widenInt_val, widenInt_val]
    by_cases refused : refuses num2.val = true
    · rw [if_pos refused] at found
      refine ⟨_, if_pos refused, rfl, ?_⟩
      rw [show computed (cString method) num1.val num2.val = none from found]
      rfl
    · rw [if_neg refused] at found
      have inside := not_not.mp (computed_inside (cString method) num1 num2 found)
      have signed := signed_inside ⟨operation num1.val num2.val, inside⟩
      refine ⟨⟨id, protobuf.calcResult.serialize ⟨⟨operation num1.val num2.val, inside⟩⟩, none⟩, ?_, rfl, ?_⟩
      · rw [if_neg refused, signed]
        rfl
      · rw [show computed (cString method) num1.val num2.val = some (operation num1.val num2.val) from found]
        exact ⟨rfl, _, rfl, rfl⟩
  · refine ⟨_, routed .., rfl, ?_⟩
    rw [show computed (cString method) num1.val num2.val = none from value ..]
    rfl

end Numbers

/-- A remote calculation: the client sends its request as one package, the server answers it with one package, and the
client reads from it the response to its own request. It reports an error for an unknown method and for a division by
zero, no result for a zero, and every other number cut to 32 bits. -/
theorem calc_exchange (protobuf : Protobuf) (id : BitVec 64) (method : Str) (num1 num2 : CInt) (uninitialized : Head)
    (other : cString method ≠ bytes "login")
    (requested : protobuf.request.Carries (calcRequest protobuf id method num1 num2))
    (first : protobuf.calcParam.Carries ⟨widenInt num1⟩) (second : protobuf.calcParam.Carries ⟨widenInt num2⟩)
    (computes : ∀ num : CInt64, computed (cString method) num1.val num2.val = some num.val →
      protobuf.calcResult.Carries ⟨num⟩ ∧ (protobuf.calcResult.serialize ⟨num⟩ = [] ↔ num.val = 0))
    (replies : ∀ answer, route protobuf (calcRequest protobuf id method num1 num2) ⟨id, [], none⟩ = .ok answer →
      protobuf.response.Carries answer) :
    ∃ (sent reply : Package) (res : Response),
      send uninitialized (protobuf.request.serialize (calcRequest protobuf id method num1 num2)) = .ok [sent.buf] ∧
        handleMessage protobuf sent.buf = .ok [reply.buf] ∧
        receive reply.buf = .ok (some (reply.head, reply.rest)) ∧
        protobuf.response.parse reply.rest = some res ∧ res.id = id ∧
        calcReport protobuf (some res) =
          match computed (cString method) num1.val num2.val with
          | none => .kRpcError
          | some value => if value = 0 then .kRpcNoResult else .kRpcSuccess (CUInt.toCInt (BitVec.ofInt 32 value)) := by
  obtain ⟨answer, answered, own, content⟩ := route_calc id other first second
  have replied := replies answer answered
  refine ⟨packageOf uninitialized _ requested.fits, packageOf _ _ replied.fits, answer,
    send_package uninitialized requested.fits, handleMessage_answer uninitialized requested answered replied,
    receive_packageOf _ replied.fits, replied.recovers, own, ?_⟩
  cases found : computed (cString method) num1.val num2.val with
  | none =>
      rw [found] at content
      exact if_pos content
  | some value =>
      rw [found] at content
      obtain ⟨none, num, rfl, result⟩ := content
      obtain ⟨carried, empty⟩ := computes num found
      by_cases zero : num.val = 0
      · have blank : answer.result = [] := by rw [result, empty.mpr zero]
        simp [calcReport, none, blank, zero]
      · have printed : answer.result ≠ [] := by
          rw [result]
          exact fun blank => zero (empty.mp blank)
        have read : protobuf.calcResult.parse answer.result = some ⟨num⟩ := by
          rw [result]
          exact carried.recovers
        simp [calcReport, none, printed, zero, read]

section Sample

/-- The generated code at one message. -/
def Codec.single {Message : Type} [DecidableEq Message] (message : Message) (text : Str) (small : text.length < 2 ^ 31) :
    Codec Message where
  serialize other := if other = message then text else []
  parse other := if other = text then some message else none
  bounded other := by
    split
    · exact small
    · exact Nat.two_pow_pos 31

theorem Codec.single_recovers {Message : Type} [DecidableEq Message] (message : Message) (text : Str)
    (small : text.length < 2 ^ 31) : (Codec.single message text small).parse
      ((Codec.single message text small).serialize message) = some message := by
  simp [single]

/-- The generated code at the messages of the call `add 21 21` with the number 1. -/
def sample : Protobuf where
  request := .single ⟨1, bytes "add", [[toByte 8, toByte 21], [toByte 8, toByte 21]]⟩
    (([8, 1, 18, 3, 97, 100, 100, 26, 2, 8, 21, 26, 2, 8, 21] : List Nat).map toByte) (by decide)
  response := .single ⟨1, [toByte 8, toByte 42], none⟩ (([8, 1, 18, 2, 8, 42] : List Nat).map toByte) (by decide)
  calcParam := .single ⟨⟨21, by decide⟩⟩ [toByte 8, toByte 21] (by decide)
  calcResult := .single ⟨⟨42, by decide⟩⟩ [toByte 8, toByte 42] (by decide)
  loginParam := .single ⟨[], []⟩ [] (by decide)
  loginResult := .single ⟨0, []⟩ [] (by decide)

theorem sample_answer : route sample (calcRequest sample 1 (bytes "add") ⟨21, by decide⟩ ⟨21, by decide⟩) ⟨1, [], none⟩ =
    .ok ⟨1, [toByte 8, toByte 42], none⟩ := by
  rfl

/-- The client adds 21 and 21. -/
theorem calc_exchange_add :
    ∃ (sent reply : Package) (res : Response),
      send Message.zero.head (sample.request.serialize
          (calcRequest sample 1 (bytes "add") ⟨21, by decide⟩ ⟨21, by decide⟩)) = .ok [sent.buf] ∧
        handleMessage sample sent.buf = .ok [reply.buf] ∧
        receive reply.buf = .ok (some (reply.head, reply.rest)) ∧
        sample.response.parse reply.rest = some res ∧ res.id = 1 ∧
        calcReport sample (some res) =
          match computed (cString (bytes "add")) 21 21 with
          | none => .kRpcError
          | some value => if value = 0 then .kRpcNoResult else .kRpcSuccess (CUInt.toCInt (BitVec.ofInt 32 value)) :=
  calc_exchange sample 1 (bytes "add") ⟨21, by decide⟩ ⟨21, by decide⟩ Message.zero.head (by decide)
    ⟨Codec.single_recovers _ _ (by decide), by decide⟩ ⟨Codec.single_recovers _ _ (by decide), by decide⟩
    ⟨Codec.single_recovers _ _ (by decide), by decide⟩
    (fun num found => by
      obtain rfl : num = ⟨42, by decide⟩ := Subtype.ext (Option.some.inj found).symm
      exact ⟨⟨Codec.single_recovers _ _ (by decide), by decide⟩, by decide⟩)
    (fun answer answered => by
      obtain rfl := Except.ok.inj (sample_answer.symm.trans answered)
      exact ⟨Codec.single_recovers _ _ (by decide), by decide⟩)

end Sample

end MySkipList.Protorpc
