import MySkipList.Construction.Session
import MySkipList.Proof.Server.Replies

namespace MySkipList

open Foundation

/-- The value is one of the type `int`. -/
def Small (value : Int) : Prop := ∃ number : CInt, number.val = value

theorem small_of_bit {value : Int} (bit : value = 0 ∨ value = 1) : Small value := by
  rcases bit with rfl | rfl
  · exact ⟨⟨0, by decide⟩, rfl⟩
  · exact ⟨⟨1, by decide⟩, rfl⟩

theorem Configs.setMaxMemory_result (configs : Configs) (maxMemory : Int) :
    (configs.setMaxMemory maxMemory).1 = 0 ∨ (configs.setMaxMemory maxMemory).1 = 1 := by
  unfold setMaxMemory
  split
  · exact Or.inr rfl
  · exact Or.inl rfl

namespace SkipList
variable {K V : Type} [LinearOrder K] [LinearOrder V] {list next : SkipList K V} {result : Int}

theorem insertElement_result {ele : K} {score : V} {draws : List Nat}
    (returned : list.insertElement ele score draws = .ok (result, next)) : result = 0 ∨ result = 1 := by
  unfold insertElement at returned
  split at returned
  · obtain ⟨after, _, returned⟩ := (Exec.bind_eq_ok _ _ _).mp returned
    exact Or.inr (Prod.mk.inj (Except.ok.inj returned)).1.symm
  · obtain ⟨stored, _, returned⟩ := (Exec.bind_eq_ok _ _ _).mp returned
    split at returned
    · obtain ⟨_, _, returned⟩ := (Exec.bind_eq_ok _ _ _).mp returned
      exact Or.inl (Prod.mk.inj (Except.ok.inj returned)).1.symm
    · obtain ⟨_, _, returned⟩ := (Exec.bind_eq_ok _ _ _).mp returned
      obtain ⟨_, _, returned⟩ := (Exec.bind_eq_ok _ _ _).mp returned
      exact Or.inl (Prod.mk.inj (Except.ok.inj returned)).1.symm

theorem deleteElement_result {ele : K} (returned : list.deleteElement ele = .ok (result, next)) :
    result = 0 ∨ result = 1 := by
  unfold deleteElement deleteBody at returned
  split at returned
  · exact Or.inl (Prod.mk.inj (Except.ok.inj returned)).1.symm
  · obtain ⟨_, _, returned⟩ := (Exec.bind_eq_ok _ _ _).mp returned
    obtain ⟨_, _, returned⟩ := (Exec.bind_eq_ok _ _ _).mp returned
    obtain ⟨_, _, returned⟩ := (Exec.bind_eq_ok _ _ _).mp returned
    obtain ⟨_, _, returned⟩ := (Exec.bind_eq_ok _ _ _).mp returned
    obtain ⟨_, _, returned⟩ := (Exec.bind_eq_ok _ _ _).mp returned
    obtain ⟨_, _, returned⟩ := (Exec.bind_eq_ok _ _ _).mp returned
    exact Or.inr (Prod.mk.inj (Except.ok.inj returned)).1.symm

omit [LinearOrder V] in
theorem searchElement_small {list next : SkipList K CInt} {ele : K}
    (returned : list.searchElement Subtype.val ele = .ok (result, next)) : Small result := by
  unfold searchElement at returned
  split at returned
  · exact ⟨⟨-1, by decide⟩, (Prod.mk.inj (Except.ok.inj returned)).1⟩
  · obtain ⟨_, _, returned⟩ := (Exec.bind_eq_ok _ _ _).mp returned
    obtain ⟨stored, _, returned⟩ := (Exec.bind_eq_ok _ _ _).mp returned
    exact ⟨stored.score, (Prod.mk.inj (Except.ok.inj returned)).1⟩

omit [LinearOrder K] [LinearOrder V] in
theorem lengthOf_small (list : SkipList K V) : Small list.lengthOf :=
  ⟨⟨list.lengthOf, BitVec.le_toInt list.length, BitVec.toInt_lt⟩, rfl⟩

end SkipList

namespace Server
variable {server next : Server} {request : Request} {response : Response}

/-- No call of `write` is empty, and the whole answer fits the buffer of the client. -/
structure Readable (writes : List Str) : Prop where
  nonempty : ∀ text ∈ writes, text ≠ []
  short : writes.flatten.length ≤ 1024

instance (writes : List Str) : Decidable (Readable writes) :=
  decidable_of_iff ((∀ text ∈ writes, text ≠ []) ∧ writes.flatten.length ≤ 1024)
    ⟨fun facts => ⟨facts.1, facts.2⟩, fun readable => ⟨readable.nonempty, readable.short⟩⟩

theorem readable_number {value : Int} (small : Small value) : Readable (Response.number value).writes := by
  obtain ⟨number, rfl⟩ := small
  constructor
  · intro text member
    rcases List.mem_cons.mp member with rfl | last
    · exact decimal_nonempty number.val
    · rw [List.mem_singleton.mp last]
      exact List.cons_ne_nil _ _
  · have digits := decimal_length number
    have form := (sent_number number.val).1
    rw [Response.sent] at form
    rw [form, List.length_append, List.length_singleton]
    omega

theorem readable_text {text : Str} {count : Nat} (nonempty : text.take count ≠ []) (small : count ≤ 1024) :
    Readable (Response.text text count).writes := by
  constructor
  · intro other member
    rwa [List.mem_singleton.mp member]
  · have bound := List.length_take_le count text
    rw [Response.text, List.flatten_singleton]
    omega

/-- Every answer of the server is readable. -/
theorem Answered.readable (answered : Answered server request response next) : Readable response.writes := by
  cases answered with
  | left => decide
  | saved => exact readable_text (by decide) (by decide)
  | misconfigured => exact readable_text (by decide) (by decide)
  | configured => exact readable_number (small_of_bit (Configs.setMaxMemory_result ..))
  | unconfigured => decide
  | mistimed => exact readable_text (by decide) (by decide)
  | timed _ _ _ pushed => exact readable_number (small_of_bit (Or.inr (Timer.push_result pushed)))
  | absent => cases verb request.cmd <;> exact readable_text (by decide) (by decide)
  | accessed _ _ _ dispatched =>
      cases dispatched with
      | usage => cases verb request.cmd <;> exact readable_text (by decide) (by decide)
      | inserted returned => exact readable_number (small_of_bit (SkipList.insertElement_result returned))
      | searched returned => exact readable_number (SkipList.searchElement_small returned)
      | deleted returned => exact readable_number (small_of_bit (SkipList.deleteElement_result returned))
      | counted => exact readable_number (SkipList.lengthOf_small _)
      | displayed => decide

/-- A well-formed command is answerable. -/
theorem answerable_of_wellFormed (formed : wellFormed request.words = true) : request.Answerable := by
  unfold Request.Answerable Request.cmd Request.args
  generalize request.words = words at formed
  unfold wellFormed at formed
  split at formed
  · exact absurd formed (by decide)
  · rename_i cmd args
    rw [List.headD_cons, List.tail_cons]
    split at formed <;> rename_i action
    · rw [action]
      exact ⟨List.cons_ne_nil _ _, formed⟩
    · rw [action]
      exact List.cons_ne_nil _ _
    · rw [action]
      exact List.cons_ne_nil _ _
    · rw [action]
      exact List.cons_ne_nil _ _
    · rw [action]
      exact formed
    · exact absurd formed (by decide)

end Server

namespace Session
variable {session next : Session} {trace : List Event}

/-- The commands that the client has sent. -/
def commandsOf (trace : List Event) : List Str :=
  trace.filterMap fun event => match event with
    | .sent text => some text
    | _ => none

/-- What the handler has received, each with the bytes that it writes in answer. -/
def exchangesOf (trace : List Event) : List (Str × Str) :=
  trace.filterMap fun event => match event with
    | .handled text answer => some (text, answer)
    | _ => none

/-- What the client has printed after its commands. -/
def printsOf (trace : List Event) : List Str :=
  trace.filterMap fun event => match event with
    | .printed text => some text
    | _ => none

/-- What the client prints after a command is what the server writes in answer to that command. -/
def Paired (trace : List Event) : Prop :=
  ∀ (n : Nat) (text : Str), (printsOf trace)[n]? = some text →
    ∃ command, (commandsOf trace)[n]? = some command ∧ (exchangesOf trace)[n]? = some (command, text)

/-- A `read` that finds bytes happens after the last `write` of the handler. -/
def Whole (session : Session) : Action → Prop
  | .read => session.reading = true → session.replies ≠ [] → session.writes = []
  | _ => True

/-- Where the session stands, with the sent commands that are not received and the answers that are not printed. -/
inductive Pending (session : Session) : List Str → List Str → Prop where
  | typing (reading : session.reading = false) (requests : session.requests = []) (writes : session.writes = [])
      (replies : session.replies = []) : Pending session [] []
  | asked (line : Line) (reading : session.reading = true) (requests : session.requests = line.text)
      (writes : session.writes = []) (replies : session.replies = []) : Pending session [line.text] []
  | answering {answer : Str} (reading : session.reading = true) (requests : session.requests = [])
      (whole : session.replies ++ session.writes.flatten = answer) (nonempty : ∀ text ∈ session.writes, text ≠ [])
      (short : answer.length ≤ 1024) : Pending session [] [answer]

/-- The received commands are the sent ones up to the pending command, and the printed texts are the answers up
to the pending answer. -/
structure Accounted (trace : List Event) (asked answers : List Str) : Prop where
  commands : commandsOf trace = (exchangesOf trace).map Prod.fst ++ asked
  answered : (exchangesOf trace).map Prod.snd = printsOf trace ++ answers

section Accounts
variable {asked answers : List Str}

theorem Accounted.idle (accounted : Accounted trace asked answers) : Accounted (trace ++ [.idle]) asked answers where
  commands := by simpa [commandsOf, exchangesOf] using accounted.commands
  answered := by simpa [printsOf, exchangesOf] using accounted.answered

theorem Accounted.sent (accounted : Accounted trace [] answers) (text : Str) :
    Accounted (trace ++ [.sent text]) [text] answers where
  commands := by simpa [commandsOf, exchangesOf] using accounted.commands
  answered := by simpa [printsOf, exchangesOf] using accounted.answered

theorem Accounted.handled {text : Str} (accounted : Accounted trace [text] []) (answer : Str) :
    Accounted (trace ++ [.handled text answer]) [] [answer] where
  commands := by simpa [commandsOf, exchangesOf] using accounted.commands
  answered := by simpa [printsOf, exchangesOf] using accounted.answered

theorem Accounted.printed {answer : Str} (accounted : Accounted trace asked [answer]) :
    Accounted (trace ++ [.printed answer]) asked [] where
  commands := by simpa [commandsOf, exchangesOf] using accounted.commands
  answered := by simpa [printsOf, exchangesOf] using accounted.answered

theorem Accounted.paired (accounted : Accounted trace asked answers) : Paired trace := by
  intro n text printed
  have answer : ((exchangesOf trace).map Prod.snd)[n]? = some text := by
    rw [accounted.answered, List.getElem?_append_left (List.getElem?_eq_some_iff.mp printed).1, printed]
  rw [List.getElem?_map, Option.map_eq_some_iff] at answer
  obtain ⟨⟨command, _⟩, exchange, rfl⟩ := answer
  refine ⟨command, ?_, exchange⟩
  have inside : n < ((exchangesOf trace).map Prod.fst).length := by
    rw [List.length_map]
    exact (List.getElem?_eq_some_iff.mp exchange).1
  rw [accounted.commands, List.getElem?_append_left inside, List.getElem?_map, exchange, Option.map_some]

/-- A printed text that is not the pending answer stays in the trace. -/
theorem Accounted.not_paired {text answer : Str} (accounted : Accounted trace asked [answer]) (other : text ≠ answer)
    (later : List Event) : ¬ Paired (trace ++ .printed text :: later) := by
  intro paired
  have printed : (printsOf (trace ++ .printed text :: later))[(printsOf trace).length]? = some text := by simp [printsOf]
  obtain ⟨command, _, exchange⟩ := paired _ text printed
  have pending : ((exchangesOf trace).map Prod.snd)[(printsOf trace).length]? = some answer := by
    rw [accounted.answered, List.getElem?_concat_length]
  rw [List.getElem?_map, Option.map_eq_some_iff] at pending
  obtain ⟨recorded, found, rfl⟩ := pending
  rw [exchangesOf, List.filterMap_append] at exchange
  have same := (List.getElem?_append_left (List.getElem?_eq_some_iff.mp found).1).symm.trans exchange
  exact other (congrArg Prod.snd (Option.some.inj (same.symm.trans found)))

end Accounts

/-- The server is sound, and the trace accounts for what is pending. -/
structure Balanced (trace : List Event) (session : Session) : Prop where
  sound : session.server.Sound
  pending : ∃ asked answers, Pending session asked answers ∧ Accounted trace asked answers

theorem start_balanced {server : Server} (sound : server.Sound) : Balanced [] (start server) :=
  ⟨sound, [], [], .typing rfl rfl rfl rfl, ⟨rfl, rfl⟩⟩

/-- A step that shows nothing keeps the balance. -/
theorem Balanced.idle (balanced : Balanced trace session) : Balanced (trace ++ [.idle]) session := by
  obtain ⟨sound, asked, answers, pending, accounted⟩ := balanced
  exact ⟨sound, asked, answers, pending, accounted.idle⟩

theorem Balanced.send (balanced : Balanced trace session) (line : Line) :
    ∃ event next, session.step (.send line) = .ok (event, next) ∧ Balanced (trace ++ [event]) next := by
  obtain ⟨asked, answers, pending, accounted⟩ := balanced.pending
  cases pending with
  | typing reading requests writes replies =>
      refine ⟨.sent line.text, { session with requests := session.requests ++ line.text, reading := true }, ?_,
        balanced.sound, [line.text], [], ?_, accounted.sent line.text⟩
      · rw [step, if_neg (by simp [reading]), Exec.pure_eq]
      · exact .asked line rfl (by rw [requests, List.nil_append]) writes replies
  | asked _ reading => exact ⟨.idle, session, by rw [step, if_pos reading]; rfl, balanced.idle⟩
  | answering reading => exact ⟨.idle, session, by rw [step, if_pos reading]; rfl, balanced.idle⟩

/-- The handler finishes a sent command, and its answer is readable. -/
theorem handle_line {server : Server} (sound : server.Sound) (running : server.control = .processing) (line : Line)
    (now : Int) (draws : List Nat) (uninitialized : CInt) (opens : Str → Bool) :
    ∃ response next, server.handle ⟨line.text, now, draws, uninitialized, opens⟩ = .ok (response, next) ∧
      next.Sound ∧ Server.Readable response.writes := by
  have formed : wellFormed (Request.mk line.text now draws uninitialized opens).words = true := by
    have again : cString line.text = line.text := List.takeWhile_idem ..
    rw [Request.words, again]
    exact line.formed
  obtain ⟨⟨response, next⟩, returned⟩ := (Server.handle_returns sound _).mpr (Server.answerable_of_wellFormed formed)
  exact ⟨response, next, returned, sound.stepped (.handled running (Server.handle_handled returned)),
    (Server.handle_answered returned).readable⟩

theorem Balanced.recv (balanced : Balanced trace session) (now : Int) (draws : List Nat) (uninitialized : CInt)
    (opens : Str → Bool) :
    ∃ event next, session.step (.recv now draws uninitialized opens) = .ok (event, next) ∧
      Balanced (trace ++ [event]) next := by
  by_cases blocked : (session.requests.isEmpty || !session.writes.isEmpty || session.server.control != .processing) = true
  · exact ⟨.idle, session, by rw [step, if_pos blocked]; rfl, balanced.idle⟩
  obtain ⟨asked, answers, pending, accounted⟩ := balanced.pending
  cases pending with
  | typing _ requests => simp [requests] at blocked
  | answering _ requests => simp [requests] at blocked
  | asked line reading requests writes replies =>
      have fits : line.text.length ≤ 1023 := (List.takeWhile_sublist _).length_le.trans line.fits
      have whole : session.requests.take 1023 = line.text := by rw [requests, List.take_of_length_le fits]
      have rest : session.requests.drop 1023 = [] := by rw [requests, List.drop_eq_nil_of_le fits]
      have running : session.server.control = .processing := by
        by_contra other
        simp [other] at blocked
      obtain ⟨response, server, returned, sound, readable⟩ :=
        handle_line balanced.sound running line now draws uninitialized opens
      refine ⟨.handled line.text response.writes.flatten,
        { session with server := server, requests := [], writes := response.writes }, ?_, sound, [],
        [response.writes.flatten], ?_, accounted.handled response.writes.flatten⟩
      · rw [step, if_neg blocked]
        dsimp only
        rw [whole, rest, returned]
        rfl
      · exact .answering reading rfl (by rw [replies, List.nil_append]) readable.nonempty readable.short

theorem Balanced.write (balanced : Balanced trace session) :
    ∃ event next, session.step .write = .ok (event, next) ∧ Balanced (trace ++ [event]) next := by
  cases left : session.writes with
  | nil => exact ⟨.idle, session, by rw [step, left]; rfl, balanced.idle⟩
  | cons text rest =>
      obtain ⟨asked, answers, pending, accounted⟩ := balanced.pending
      refine ⟨.idle, { session with writes := rest, replies := session.replies ++ text }, by rw [step, left]; rfl,
        Balanced.idle ⟨balanced.sound, asked, answers, ?_, accounted⟩⟩
      cases pending with
      | typing _ _ writes => simp [left] at writes
      | asked _ _ _ writes => simp [left] at writes
      | answering reading requests whole nonempty short =>
          refine .answering reading requests ?_ ?_ short
          · rw [← whole, left, List.flatten_cons, List.append_assoc]
          · intro other member
            exact nonempty other (by simp [left, member])

/-- A `read` after the last `write` prints the whole answer. -/
theorem Balanced.read (balanced : Balanced trace session) (complete : session.Whole .read) :
    ∃ event next, session.step .read = .ok (event, next) ∧ Balanced (trace ++ [event]) next := by
  by_cases ready : (session.reading && !session.replies.isEmpty) = true
  · obtain ⟨asked, answers, pending, accounted⟩ := balanced.pending
    cases pending with
    | typing reading => simp [reading] at ready
    | asked _ _ _ _ replies => simp [replies] at ready
    | @answering answer reading requests whole _ short =>
        have writes : session.writes = [] := complete reading (by simpa [reading] using ready)
        have replies : session.replies = answer := by rw [← whole, writes, List.flatten_nil, List.append_nil]
        refine ⟨.printed answer, { session with replies := [], reading := false }, ?_, balanced.sound, [], [], ?_,
          accounted.printed⟩
        · rw [step, if_pos ready, replies, List.take_of_length_le short, List.drop_eq_nil_of_le short, Exec.pure_eq]
        · exact .typing rfl requests writes rfl
  · exact ⟨.idle, session, by rw [step, if_neg ready]; rfl, balanced.idle⟩

theorem Balanced.stepped (balanced : Balanced trace session) {action : Action} (complete : session.Whole action) :
    ∃ event next, session.step action = .ok (event, next) ∧ Balanced (trace ++ [event]) next := by
  cases action with
  | send line => exact balanced.send line
  | recv now draws uninitialized opens => exact balanced.recv now draws uninitialized opens
  | write => exact balanced.write
  | read => exact balanced.read complete

/-- A `read` before the last `write` prints a part of the answer, and no later step repairs that. -/
theorem Balanced.broken (balanced : Balanced trace session) {action : Action} (early : ¬ session.Whole action)
    {event : Event} (stepped : session.step action = .ok (event, next)) (later : List Event) :
    ¬ Paired (trace ++ event :: later) := by
  cases action with
  | read =>
      simp only [Whole, Classical.not_imp] at early
      obtain ⟨reading, replies, writes⟩ := early
      obtain ⟨asked, answers, pending, accounted⟩ := balanced.pending
      cases pending with
      | typing other => simp [reading] at other
      | asked _ _ _ other => exact absurd other writes
      | @answering answer _ _ whole nonempty _ =>
          rw [step, if_pos (by simp [reading, replies])] at stepped
          obtain ⟨rfl, _⟩ := Prod.mk.inj (Except.ok.inj stepped)
          refine accounted.not_paired ?_ later
          have missing : session.writes.flatten ≠ [] := by
            obtain ⟨text, rest, form⟩ := List.exists_cons_of_ne_nil writes
            have first := nonempty text (by simp [form])
            simp [form, first]
          intro part
          have shorter : answer.length ≤ session.replies.length := part ▸ (List.take_sublist 1024 _).length_le
          rw [← whole, List.length_append] at shorter
          have positive := List.length_pos_iff.mpr missing
          omega
  | _ => exact absurd trivial early

/-- In a session with any reachable server, the client prints the answers to its commands exactly when every
`read` that finds bytes happens after the last `write` of the handler. -/
theorem session_paired_iff (steps : List Server.Step) (responses : List Response) (server : Server)
    (reached : run Server.step Server.new steps = .ok (responses, server)) (actions : List Action) :
    (∃ trace final, run step (start server) actions = .ok (trace, final) ∧ Paired trace) ↔
      Meets step Whole (start server) actions := by
  have rule := run_outputs_iff_meets step Whole Balanced Paired (fun _ _ ⟨_, _, _, _, accounted⟩ => accounted.paired)
    (fun _ _ _ balanced complete => balanced.stepped complete)
    (fun _ _ _ _ _ later balanced early stepped => balanced.broken early stepped later)
    [] (start server) actions (start_balanced (Server.reached_sound reached))
  simpa using rule

/-- A call of `recv` with fixed values of the clock, the draws and the files. -/
def received : Action :=
  .recv (Server.plain "").now (Server.plain "").draws (Server.plain "").uninitialized (Server.plain "").opens

theorem session_paired_iff_scored :
    ∃ responses server,
      run Server.step Server.new [.event (.receive (Server.plain "ZADD k 7 a\n"))] = .ok (responses, server) ∧
        ((∃ trace final, run step (start server)
            [.send ⟨bytes "ZSCORE k a", by decide, by decide +kernel⟩, received, .write, .write, .read] =
              .ok (trace, final) ∧ Paired trace) ↔
          Meets step Whole (start server)
            [.send ⟨bytes "ZSCORE k a", by decide, by decide +kernel⟩, received, .write, .write, .read]) :=
  ⟨_, _, rfl, session_paired_iff [.event (.receive (Server.plain "ZADD k 7 a\n"))] _ _ rfl _⟩

/-- The first `read` finds the number without its line break, and the line break is then printed as the answer to
the next command. -/
theorem session_splits_reply :
    ∃ trace final, run step (start Server.new)
      [.send ⟨bytes "ZADD k 7 a", by decide, by decide +kernel⟩, received, .write, .read, .write,
        .send ⟨bytes "ZSCORE k a", by decide, by decide +kernel⟩, .read, received, .write, .write] = .ok (trace, final) ∧
      exchangesOf trace = [(bytes "ZADD k 7 a", bytes "1\n"), (bytes "ZSCORE k a", bytes "7\n")] ∧
      printsOf trace = [bytes "1", bytes "\n"] ∧ ¬ Paired trace := by
  have shifted (trace : List Event)
      (exchanges : exchangesOf trace = [(bytes "ZADD k 7 a", bytes "1\n"), (bytes "ZSCORE k a", bytes "7\n")])
      (prints : printsOf trace = [bytes "1", bytes "\n"]) : ¬ Paired trace := by
    intro paired
    obtain ⟨command, _, exchange⟩ := paired 0 (bytes "1") (by rw [prints]; rfl)
    rw [exchanges] at exchange
    have whole : bytes "1\n" = bytes "1" := congrArg Prod.snd (Option.some.inj exchange)
    exact absurd whole (by decide)
  exact ⟨_, _, rfl, rfl, rfl, shifted _ rfl rfl⟩

end Session

end MySkipList
