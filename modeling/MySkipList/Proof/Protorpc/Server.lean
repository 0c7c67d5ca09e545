import MySkipList.Construction.RpcServer
import MySkipList.Proof.Protorpc.Wire

namespace MySkipList.Protorpc
open Foundation

section Packages

/-- The head of a package that carries a text. -/
def headOf (head : Head) (text : Str) : Head := { headInit head with length := BitVec.ofNat 32 text.length }

theorem headOf_length {text : Str} (head : Head) (small : text.length < 2 ^ 31) :
    (headOf head text).length.toNat = text.length := by
  rw [headOf, BitVec.toNat_ofNat, Nat.mod_eq_of_lt (by omega)]

theorem headOf_check (head : Head) (text : Str) : headCheck (headOf head text) = 0 := by
  simp [headOf, headInit, headCheck]

theorem stackAlloc_length (size : Int) : (stackAlloc size).length = max 1024 size.toNat := by
  rw [stackAlloc, List.length_replicate]

/-- A text below 2 GiB is sent as one package, or not at all if the length of the package is no `int`. -/
theorem send_eq (head : Head) {text : Str} (small : text.length < 2 ^ 31) :
    send head text = .ok (if headLength + text.length < 2 ^ 31 then [(headOf head text).octets ++ text] else []) := by
  have twelve : headLength = 12 := rfl
  have total : (packageLength (headOf head text)).toNat = headLength + text.length := by
    rw [packageLength_toNat, headOf_length head small]
    omega
  have again : CUInt.ofCInt (packageLength (headOf head text)).toCInt = packageLength (headOf head text) :=
    BitVec.ofInt_toInt
  have nonempty : (packageLength (headOf head text)).toCInt.val ≠ 0 := by
    intro zero
    have none := congrArg BitVec.toNat (BitVec.toInt_inj.mp (zero.trans BitVec.toInt_zero.symm))
    rw [total, BitVec.toNat_zero] at none
    omega
  have long : headLength ≤ (stackAlloc (packageLength (headOf head text)).toCInt.val).length := by
    rw [stackAlloc_length]
    omega
  have enough : ¬ CUInt.ofCInt (packageLength (headOf head text)).toCInt < packageLength (headOf head text) := by
    rw [again]
    exact BitVec.lt_irrefl _
  have packed := pack_head nonempty enough long
  change (pack (some ⟨headOf head text, none⟩) (some (stackAlloc (packageLength (headOf head text)).toCInt.val))
    (packageLength (headOf head text)).toCInt >>= _) = _
  rw [packed, Exec.ok_bind]
  dsimp only
  by_cases fits : headLength + text.length < 2 ^ 31
  · have value := packageLength_toInt total fits
    have inside : (packageLength (headOf head text)).toCInt.val = (headLength + text.length : Nat) := value
    have room : text.length ≤ ((stackAlloc (packageLength (headOf head text)).toCInt.val).drop headLength).length := by
      rw [List.length_drop, stackAlloc_length, inside]
      omega
    have positive : 0 < ((headLength + text.length : Nat) : Int) := by omega
    have front : ((headOf head text).octets ++ text).length = headLength + text.length := by
      rw [List.length_append, octets_length]
    rw [value, if_pos positive, store_body (headOf head text) room, Exec.ok_bind, if_pos fits, Int.toNat_natCast, ← front,
      List.take_left]
    rfl
  · have negative : ¬ 0 < (packageLength (headOf head text)).toInt := by
      rw [BitVec.toInt_eq_toNat_cond, total]
      omega
    rw [if_neg negative, if_neg fits]
    rfl

/-- The server and the client read the whole body of a package, if its head is one of the protocol. -/
theorem receive_package (package : Package) :
    receive package.buf = .ok (if headCheck package.head ≠ 0 then none else some (package.head, package.rest)) := by
  obtain ⟨buf, head, rest, rfl, whole, bounded⟩ := package
  have size : (head.octets ++ rest).length = headLength + rest.length := by
    rw [List.length_append, octets_length]
  have len : (CUInt.toCInt (BitVec.ofNat 32 (head.octets ++ rest).length)).val = headLength + rest.length := by
    rw [size] at bounded ⊢
    have value : (BitVec.ofNat 32 (headLength + rest.length)).toInt = (headLength + rest.length : Nat) := by
      rw [BitVec.toInt_eq_toNat_of_lt (by rw [BitVec.toNat_ofNat]; omega), BitVec.toNat_ofNat,
        Nat.mod_eq_of_lt (by omega)]
    exact value.trans (Nat.cast_add ..)
  have complete : ¬ (rest.length < head.length.toNat ∧ headLength + head.length.toNat < 2 ^ 32) := by omega
  have unpacked := unpack_octets .zero head rest _ len
  rw [if_neg complete, Nat.mod_eq_of_lt (by omega), ← whole] at unpacked
  have read : (Message.mk head (if rest = [] then Message.zero.body else some rest)).text = .ok rest := by
    by_cases empty : rest = []
    · have none : head.length = 0 := by
        apply BitVec.eq_of_toNat_eq
        rw [← whole, empty]
        rfl
      simp [Message.text, Message.zero, empty, none]
    · have loaded : load rest 0 head.length.toNat = .ok (rest.take head.length.toNat) := load_body whole.ge
      rw [← whole, List.take_length] at loaded
      simp [Message.text, empty, ← whole, loaded]
  change (unpack (some .zero) (some (head.octets ++ rest))
    (CUInt.toCInt (BitVec.ofNat 32 (head.octets ++ rest).length)) >>= _) = _
  rw [unpacked, Exec.ok_bind]
  simp only [Exec.ok_bind, read, size, Exec.pure_eq]
  rw [if_neg (by omega), if_neg (fun different => different rfl)]
  split <;> rfl

end Packages

section Handlers
variable {protobuf : Protobuf} {req : Request} {res : Response}

/-- The numbers that a method computes without a bound. A division by zero and an unknown method have none. -/
def computed (method : Str) (num1 num2 : Int) : Option Int :=
  if method = bytes "add" then some (num1 + num2)
  else if method = bytes "sub" then some (num1 - num2)
  else if method = bytes "mul" then some (num1 * num2)
  else if method = bytes "div" ∧ num2 ≠ 0 then some (num1.tdiv num2)
  else none

/-- A value that is no `int64`. -/
def Overflows (value : Int) : Prop := ¬ (-2 ^ 63 ≤ value ∧ value < 2 ^ 63)

/-- The two parameters of a request are numbers. -/
def Numbers (protobuf : Protobuf) (req : Request) (num1 num2 : CInt64) : Prop :=
  ∃ first second, req.params = [first, second] ∧ protobuf.calcParam.parse first = some ⟨num1⟩ ∧
    protobuf.calcParam.parse second = some ⟨num2⟩

theorem Numbers.unique {num1 num2 other1 other2 : CInt64} (numbers : Numbers protobuf req num1 num2)
    (others : Numbers protobuf req other1 other2) : other1 = num1 ∧ other2 = num2 := by
  obtain ⟨first, second, params, parsed1, parsed2⟩ := numbers
  obtain ⟨third, fourth, again, parsed3, parsed4⟩ := others
  obtain ⟨rfl, rfl, -⟩ : third = first ∧ fourth = second ∧ True := by simpa [params] using again.symm
  refine ⟨?_, ?_⟩
  · exact congrArg CalcParam.num (Option.some.inj (parsed3.symm.trans parsed1))
  · exact congrArg CalcParam.num (Option.some.inj (parsed4.symm.trans parsed2))

theorem signed_overflows {value : Int} (overflows : Overflows value) : signed value = .error .signedOverflow := by
  rw [signed, dif_neg overflows]
  rfl

theorem signed_inside (num : CInt64) : signed num.val = .ok num := by
  rw [signed, dif_pos num.property]
  rfl

/-- What a handler of `calc.h` does with two numbers. -/
theorem calcWith_numbers {num1 num2 : CInt64} (numbers : Numbers protobuf req num1 num2) (refuses : Int → Bool)
    (operation : Int → Int → Int) :
    calcWith refuses operation protobuf req res =
      if refuses num2.val then .ok (badRequest res)
      else
        (signed (operation num1.val num2.val)).map fun num =>
          { res with result := protobuf.calcResult.serialize ⟨num⟩ } := by
  obtain ⟨first, second, params, parsed1, parsed2⟩ := numbers
  simp only [calcWith, params, parsed1, parsed2]
  rfl

theorem signed_fault {value : Int} {fault : Fault} (stopped : signed value = .error fault) :
    fault = .signedOverflow := by
  by_cases inside : -2 ^ 63 ≤ value ∧ value < 2 ^ 63
  · rw [signed_inside ⟨value, inside⟩] at stopped
    cases stopped
  · rw [signed_overflows inside] at stopped
    exact (Except.error.inj stopped).symm

/-- Without two numbers a handler of `calc.h` refuses the request. -/
theorem calcWith_other (other : ∀ num1 num2, ¬ Numbers protobuf req num1 num2) (refuses : Int → Bool)
    (operation : Int → Int → Int) : calcWith refuses operation protobuf req res = .ok (badRequest res) := by
  unfold calcWith
  split
  · next first second params =>
      split
      · next param1 param2 parsed1 parsed2 =>
          exact absurd ⟨first, second, params, parsed1, parsed2⟩ (other param1.num param2.num)
      · rfl
  · rfl

/-- A handler of `calc.h` has no other fault than the overflow. -/
theorem calcWith_fault {refuses : Int → Bool} {operation : Int → Int → Int} {fault : Fault}
    (stopped : calcWith refuses operation protobuf req res = .error fault) : fault = .signedOverflow := by
  by_cases numbers : ∃ num1 num2, Numbers protobuf req num1 num2
  · obtain ⟨num1, num2, numbers⟩ := numbers
    rw [calcWith_numbers numbers] at stopped
    split at stopped
    · cases stopped
    · cases value : signed (operation num1.val num2.val) with
      | ok num => simp [value, Except.map] at stopped
      | error other =>
          rw [value] at stopped
          rw [← Except.error.inj stopped]
          exact signed_fault value
  · rw [calcWith_other fun num1 num2 given => numbers ⟨num1, num2, given⟩] at stopped
    cases stopped

theorem login_returns : ∃ answer, login protobuf req res = .ok answer := by
  unfold login
  split
  · exact ⟨_, rfl⟩
  · split <;> exact ⟨_, rfl⟩

/-- The entries of the router one after the other. -/
theorem route_eq (protobuf : Protobuf) (req : Request) (res : Response) :
    route protobuf req res =
      if cString req.method = bytes "add" then calcAdd protobuf req res
      else if cString req.method = bytes "sub" then calcSub protobuf req res
      else if cString req.method = bytes "mul" then calcMul protobuf req res
      else if cString req.method = bytes "div" then calcDiv protobuf req res
      else if cString req.method = bytes "login" then login protobuf req res
      else .ok (notFound res) := by
  unfold route router
  simp only [List.find?_cons, List.find?_nil, eq_comm (b := cString req.method)]
  split_ifs <;> simp [*] <;> rfl

/-- Every method but `login` is a handler of `calc.h` or unknown. -/
theorem route_cases (req : Request) (other : cString req.method ≠ bytes "login") :
    (∃ refuses operation, (∀ protobuf res, route protobuf req res = calcWith refuses operation protobuf req res) ∧
      ∀ num1 num2, computed (cString req.method) num1 num2 = if refuses num2 then none else some (operation num1 num2)) ∨
      (∀ protobuf res, route protobuf req res = .ok (notFound res)) ∧
        ∀ num1 num2, computed (cString req.method) num1 num2 = none := by
  by_cases add : cString req.method = bytes "add"
  · exact Or.inl ⟨fun _ => false, (· + ·), fun protobuf res => by rw [route_eq, if_pos add]; rfl,
      fun num1 num2 => by simp [computed, add]⟩
  by_cases sub : cString req.method = bytes "sub"
  · exact Or.inl ⟨fun _ => false, (· - ·), fun protobuf res => by rw [route_eq, if_neg add, if_pos sub]; rfl,
      fun num1 num2 => by rw [computed, if_neg add, if_pos sub]; rfl⟩
  by_cases mul : cString req.method = bytes "mul"
  · exact Or.inl ⟨fun _ => false, (· * ·), fun protobuf res => by rw [route_eq, if_neg add, if_neg sub, if_pos mul]; rfl,
      fun num1 num2 => by rw [computed, if_neg add, if_neg sub, if_pos mul]; rfl⟩
  by_cases div : cString req.method = bytes "div"
  · refine Or.inl ⟨fun num => num = 0, Int.tdiv, fun protobuf res => ?_, fun num1 num2 => ?_⟩
    · rw [route_eq, if_neg add, if_neg sub, if_neg mul, if_pos div]
      rfl
    · rw [computed, if_neg add, if_neg sub, if_neg mul]
      by_cases zero : num2 = 0 <;> simp [div, zero]
  · refine Or.inr ⟨fun protobuf res => ?_, fun num1 num2 => ?_⟩
    · rw [route_eq, if_neg add, if_neg sub, if_neg mul, if_neg div, if_neg other]
    · rw [computed, if_neg add, if_neg sub, if_neg mul, if_neg fun both => div both.1]

theorem route_login (named : cString req.method = bytes "login") : ∃ answer, route protobuf req res = .ok answer := by
  rw [route_eq, named]
  exact login_returns

/-- The overflow is the only fault of a handler. -/
theorem route_fault {fault : Fault} (stopped : route protobuf req res = .error fault) : fault = .signedOverflow := by
  by_cases other : cString req.method = bytes "login"
  · obtain ⟨answer, returned⟩ : ∃ answer, route protobuf req res = .ok answer := route_login other
    cases stopped.symm.trans returned
  rcases route_cases req other with ⟨refuses, operation, routed, _⟩ | ⟨routed, _⟩
  · rw [routed] at stopped
    exact calcWith_fault stopped
  · rw [routed] at stopped
    cases stopped

theorem computed_login (num1 num2 : Int) : computed (bytes "login") num1 num2 = none := rfl

/-- A handler stops exactly when the number that it computes is no `int64`. -/
theorem route_faults_iff (protobuf : Protobuf) (req : Request) (res : Response) :
    (∃ fault, route protobuf req res = .error fault) ↔
      ∃ num1 num2 value, Numbers protobuf req num1 num2 ∧
        computed (cString req.method) num1.val num2.val = some value ∧ Overflows value := by
  by_cases other : cString req.method = bytes "login"
  · obtain ⟨answer, returned⟩ : ∃ answer, route protobuf req res = .ok answer := route_login other
    simp [returned, other, computed_login]
  rcases route_cases req other with ⟨refuses, operation, routed, value⟩ | ⟨routed, value⟩
  · rw [routed]
    by_cases numbers : ∃ num1 num2, Numbers protobuf req num1 num2
    · obtain ⟨num1, num2, numbers⟩ := numbers
      rw [calcWith_numbers numbers]
      constructor
      · rintro ⟨fault, stopped⟩
        by_cases refused : refuses num2.val = true
        · rw [if_pos refused] at stopped
          cases stopped
        · rw [if_neg refused] at stopped
          refine ⟨num1, num2, _, numbers, (value ..).trans (if_neg refused), fun inside => ?_⟩
          rw [signed_inside ⟨_, inside⟩] at stopped
          cases stopped
      · rintro ⟨other1, other2, result, others, found, overflows⟩
        obtain ⟨rfl, rfl⟩ := numbers.unique others
        rw [value] at found
        by_cases refused : refuses other2.val = true
        · rw [if_pos refused] at found
          cases found
        · rw [if_neg refused] at found
          obtain rfl := Option.some.inj found
          exact ⟨.signedOverflow, by rw [if_neg refused, signed_overflows overflows]; rfl⟩
    · have none (num1 num2 : CInt64) : ¬ Numbers protobuf req num1 num2 := fun given => numbers ⟨num1, num2, given⟩
      rw [calcWith_other none]
      simp [none]
  · simp [routed, value]

end Handlers

/-- The text is a request for a number that is no `int64`. -/
def AsksOverflow (protobuf : Protobuf) (text : Str) : Prop :=
  ∃ req num1 num2 value, protobuf.request.parse text = some req ∧ Numbers protobuf req num1 num2 ∧
    computed (cString req.method) num1.val num2.val = some value ∧ Overflows value

/-- The overflow is the only fault of the answer to a text. -/
theorem respond_overflows_iff (protobuf : Protobuf) (text : Str) :
    (respond protobuf text = .error .signedOverflow ↔ AsksOverflow protobuf text) ∧
      ∀ fault, respond protobuf text = .error fault → fault = .signedOverflow := by
  unfold respond AsksOverflow
  cases parsed : protobuf.request.parse text with
  | none => simp
  | some req =>
      have rule := route_faults_iff protobuf req ⟨req.id, [], none⟩
      refine ⟨⟨fun stopped => ?_, ?_⟩, fun fault => route_fault⟩
      · obtain ⟨num1, num2, value, overflows⟩ := rule.mp ⟨_, stopped⟩
        exact ⟨req, num1, num2, value, rfl, overflows⟩
      · rintro ⟨_, num1, num2, value, same, overflows⟩
        obtain rfl := Option.some.inj same
        obtain ⟨fault, stopped⟩ := rule.mpr ⟨num1, num2, value, overflows⟩
        exact route_fault stopped ▸ stopped

/-- The server drops a package with a wrong head. At any other package it overflows a signed number exactly when the
body is a request for a number that is no `int64`, and otherwise it writes its response as one package, unless the
length of this package is no `int`. -/
theorem handleMessage_answers (protobuf : Protobuf) (package : Package) :
    (headCheck package.head ≠ 0 → handleMessage protobuf package.buf = .ok []) ∧
      (headCheck package.head = 0 →
        (handleMessage protobuf package.buf = .error .signedOverflow ↔ AsksOverflow protobuf package.rest) ∧
        (¬ AsksOverflow protobuf package.rest → ∃ res, respond protobuf package.rest = .ok res ∧
          handleMessage protobuf package.buf =
            .ok (if headLength + (protobuf.response.serialize res).length < 2 ^ 31 then
              [(headOf package.head (protobuf.response.serialize res)).octets ++ protobuf.response.serialize res]
            else []))) := by
  rw [handleMessage, receive_package]
  refine ⟨fun wrong => by rw [if_pos wrong]; rfl, fun checked => ?_⟩
  obtain ⟨overflows, only⟩ := respond_overflows_iff protobuf package.rest
  rw [if_neg (not_not_intro checked), Exec.ok_bind, ← overflows]
  dsimp only
  cases answered : respond protobuf package.rest with
  | error fault =>
      obtain rfl := only fault answered
      exact ⟨iff_of_true rfl rfl, fun returns => absurd rfl returns⟩
  | ok res =>
      rw [Exec.ok_bind, send_eq package.head (protobuf.response.bounded res)]
      exact ⟨by simp, fun _ => ⟨res, rfl, rfl⟩⟩

end MySkipList.Protorpc
