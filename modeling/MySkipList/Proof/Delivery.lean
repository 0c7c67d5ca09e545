import MySkipList.Proof.Server.Database
import MySkipList.Proof.Session

namespace MySkipList

open Foundation

namespace Session
variable {session next : Session} {trace : List Event}

section Traces
variable (trace : List Event) (text answer : Str)

@[simp] theorem commandsOf_sent : commandsOf (trace ++ [.sent text]) = commandsOf trace ++ [text] := by simp [commandsOf]

@[simp] theorem commandsOf_handled : commandsOf (trace ++ [.handled text answer]) = commandsOf trace := by
  simp [commandsOf]

@[simp] theorem commandsOf_printed : commandsOf (trace ++ [.printed text]) = commandsOf trace := by simp [commandsOf]

@[simp] theorem exchangesOf_sent : exchangesOf (trace ++ [.sent text]) = exchangesOf trace := by simp [exchangesOf]

@[simp] theorem exchangesOf_handled :
    exchangesOf (trace ++ [.handled text answer]) = exchangesOf trace ++ [(text, answer)] := by simp [exchangesOf]

@[simp] theorem exchangesOf_printed : exchangesOf (trace ++ [.printed text]) = exchangesOf trace := by
  simp [exchangesOf]

@[simp] theorem printsOf_sent : printsOf (trace ++ [.sent text]) = printsOf trace := by simp [printsOf]

@[simp] theorem printsOf_handled : printsOf (trace ++ [.handled text answer]) = printsOf trace := by simp [printsOf]

@[simp] theorem printsOf_printed : printsOf (trace ++ [.printed text]) = printsOf trace ++ [text] := by simp [printsOf]

end Traces

/-- What a step can do: nothing, a command of the client, a call of the handler on the received bytes, a call of
`write`, or a `read` that prints. -/
inductive Stepped (session : Session) : Event → Session → Prop where
  | idle : Stepped session .idle session
  | sent (line : Line) (free : session.reading = false) : Stepped session (.sent line.text)
      { session with requests := session.requests ++ line.text, reading := true }
  | handled {request : Request} {response : Response} {server : Server}
      (buffer : request.buffer = session.requests.take 1023) (waiting : session.requests ≠ [])
      (done : session.writes = []) (executed : session.server.handle request = .ok (response, server)) :
      Stepped session (.handled request.buffer response.writes.flatten)
        { session with server := server, requests := session.requests.drop 1023, writes := response.writes }
  | written {text : Str} {rest : List Str} (left : session.writes = text :: rest) :
      Stepped session .idle { session with writes := rest, replies := session.replies ++ text }
  | printed (reading : session.reading = true) (arrived : session.replies ≠ []) :
      Stepped session (.printed (session.replies.take 1024))
        { session with replies := session.replies.drop 1024, reading := false }

theorem step_stepped {action : Action} {event : Event} (stepped : session.step action = .ok (event, next)) :
    Stepped session event next := by
  cases action with
  | send line =>
      rw [step] at stepped
      split at stepped <;> obtain ⟨rfl, rfl⟩ := Prod.mk.inj (Except.ok.inj stepped)
      · exact .idle
      · rename_i free
        exact .sent line (by simpa using free)
  | recv now draws uninitialized opens =>
      rw [step] at stepped
      split at stepped
      · obtain ⟨rfl, rfl⟩ := Prod.mk.inj (Except.ok.inj stepped)
        exact .idle
      · rename_i ready
        obtain ⟨⟨response, server⟩, executed, stepped⟩ := (Exec.bind_eq_ok _ _ _).mp stepped
        obtain ⟨rfl, rfl⟩ := Prod.mk.inj (Except.ok.inj stepped)
        refine .handled rfl (fun empty => ?_) ?_ executed
        · simp [empty] at ready
        · by_contra busy
          simp [busy] at ready
  | write =>
      rw [step] at stepped
      split at stepped <;> obtain ⟨rfl, rfl⟩ := Prod.mk.inj (Except.ok.inj stepped)
      · exact .idle
      · rename_i text rest left
        exact .written left
  | read =>
      rw [step] at stepped
      split at stepped <;> obtain ⟨rfl, rfl⟩ := Prod.mk.inj (Except.ok.inj stepped)
      · rename_i ready
        rw [Bool.and_eq_true, Bool.not_eq_true', List.isEmpty_eq_false_iff] at ready
        exact .printed ready.1 ready.2
      · exact .idle

/-- Every sent byte is handled or waits for the handler, and every answered byte is printed, on its way, or still to be
written. The client sends again only after it has printed. -/
structure Delivered (trace : List Event) (session : Session) : Prop where
  requests : (commandsOf trace).flatten = ((exchangesOf trace).map Prod.fst).flatten ++ session.requests
  replies : ((exchangesOf trace).map Prod.snd).flatten =
    (printsOf trace).flatten ++ (session.replies ++ session.writes.flatten)
  turns : (commandsOf trace).length = (printsOf trace).length + if session.reading then 1 else 0
  received : ∀ exchange ∈ exchangesOf trace, exchange.1 ≠ [] ∧ exchange.1.length ≤ 1023
  printed : ∀ text ∈ printsOf trace, text ≠ [] ∧ text.length ≤ 1024

theorem start_delivered (server : Server) : Delivered [] (start server) := ⟨rfl, rfl, rfl, by simp [exchangesOf],
  by simp [printsOf]⟩

/-- A step that shows nothing moves no byte between the sides. -/
theorem Delivered.idle (delivered : Delivered trace session) (requests : next.requests = session.requests)
    (replies : next.replies ++ next.writes.flatten = session.replies ++ session.writes.flatten)
    (reading : next.reading = session.reading) : Delivered (trace ++ [.idle]) next where
  requests := by simpa [commandsOf, exchangesOf, requests] using delivered.requests
  replies := by simpa [printsOf, exchangesOf, replies] using delivered.replies
  turns := by simpa [commandsOf, printsOf, reading] using delivered.turns
  received := by simpa [exchangesOf] using delivered.received
  printed := by simpa [printsOf] using delivered.printed

theorem Delivered.sent (delivered : Delivered trace session) (free : session.reading = false) (text : Str) :
    Delivered (trace ++ [.sent text]) { session with requests := session.requests ++ text, reading := true } where
  requests := by simp [delivered.requests]
  replies := by simpa using delivered.replies
  turns := by simp [delivered.turns, free]
  received := by simpa using delivered.received
  printed := by simpa using delivered.printed

theorem Delivered.handled (delivered : Delivered trace session) (server : Server) (writes : List Str)
    (waiting : session.requests ≠ []) (done : session.writes = []) :
    Delivered (trace ++ [.handled (session.requests.take 1023) writes.flatten])
      { session with server := server, requests := session.requests.drop 1023, writes := writes } where
  requests := by simp [delivered.requests, List.take_append_drop]
  replies := by simp [delivered.replies, done]
  turns := by simpa using delivered.turns
  received exchange member := by
    rcases List.mem_append.mp (exchangesOf_handled .. ▸ member) with old | new
    · exact delivered.received exchange old
    · rw [List.mem_singleton.mp new]
      exact ⟨by simpa using waiting, List.length_take_le ..⟩
  printed := by simpa using delivered.printed

theorem Delivered.prints (delivered : Delivered trace session) (reading : session.reading = true)
    (arrived : session.replies ≠ []) :
    Delivered (trace ++ [.printed (session.replies.take 1024)])
      { session with replies := session.replies.drop 1024, reading := false } where
  requests := by simpa using delivered.requests
  replies := by
    have parts := List.take_append_drop 1024 session.replies
    rw [exchangesOf_printed, delivered.replies, printsOf_printed]
    simp only [List.flatten_append, List.flatten_singleton, List.append_assoc]
    rw [← List.append_assoc (List.take 1024 _), parts]
  turns := by simp [delivered.turns, reading]
  received := by simpa using delivered.received
  printed text member := by
    rcases List.mem_append.mp (printsOf_printed .. ▸ member) with old | new
    · exact delivered.printed text old
    · rw [List.mem_singleton.mp new]
      exact ⟨by simpa using arrived, List.length_take_le ..⟩

/-- Every step keeps the account of the bytes. -/
theorem Delivered.stepped (delivered : Delivered trace session) {event : Event}
    (stepped : Stepped session event next) : Delivered (trace ++ [event]) next := by
  cases stepped with
  | idle => exact delivered.idle rfl rfl rfl
  | sent line free => exact delivered.sent free line.text
  | handled buffer waiting done executed =>
      rw [buffer]
      exact delivered.handled _ _ waiting done
  | written left => exact delivered.idle rfl (by simp [left]) rfl
  | printed reading arrived => exact delivered.prints reading arrived

theorem delivered_of_run {server : Server} {actions : List Action} {trace : List Event} {session : Session}
    (returned : run step (start server) actions = .ok (trace, session)) : Delivered trace session := by
  have kept := run_outputs_of_meets step (fun _ _ => True) Delivered
    (fun past state action event next delivered _ stepped => delivered.stepped (step_stepped stepped)) [] (start server)
    session actions trace (start_delivered server) (fun _ _ => trivial) returned
  simpa using kept

/-- The database has answered the requests that the handler has received, and the server still holds it. -/
structure Answering (database : Database) (trace : List Event) (session : Session) (requests : List Request)
    (answers : List Observation) (reached : Database) : Prop where
  handled : run Database.handle database requests = .ok (answers, reached)
  represents : session.server.Represents reached
  received : requests.map Request.buffer = (exchangesOf trace).map Prod.fst
  answered : (answers.map fun answer => answer.writes.flatten) = (exchangesOf trace).map Prod.snd

section Answers
variable {database reached : Database} {requests : List Request} {answers : List Observation}

/-- A step without a call of the handler asks the database nothing. -/
theorem Answering.silent (answering : Answering database trace session requests answers reached) {event : Event}
    (unhandled : exchangesOf (trace ++ [event]) = exchangesOf trace) (kept : next.server = session.server) :
    Answering database (trace ++ [event]) next requests answers reached where
  handled := answering.handled
  represents := kept ▸ answering.represents
  received := unhandled ▸ answering.received
  answered := unhandled ▸ answering.answered

/-- The handler answers a received buffer as the database answers it. -/
theorem Answering.handles (answering : Answering database trace session requests answers reached) {request : Request}
    {response : Response} {server : Server} (executed : session.server.handle request = .ok (response, server)) :
    ∃ answer later, ∀ after : Session, after.server = server →
      Answering database (trace ++ [.handled request.buffer response.writes.flatten]) after (requests ++ [request])
        (answers ++ [answer]) later := by
  have agrees := answering.represents.handle request
  rw [executed] at agrees
  obtain ⟨⟨answer, later⟩, returned, shown, still⟩ := agrees.ok_left
  refine ⟨answer, later, fun after kept => ⟨?_, kept ▸ still, ?_, ?_⟩⟩
  · exact (run_append_eq_ok ..).mpr ⟨answers, reached, [answer], answering.handled, by simp [run_cons, returned], rfl⟩
  · rw [exchangesOf_handled, List.map_append, List.map_append, answering.received]
    rfl
  · have same : response.observe = answer := shown
    rw [exchangesOf_handled, List.map_append, List.map_append, answering.answered, ← same]
    rfl

theorem Answering.stepped (answering : Answering database trace session requests answers reached) {event : Event}
    (stepped : Stepped session event next) :
    ∃ requests answers reached, Answering database (trace ++ [event]) next requests answers reached := by
  cases stepped with
  | idle => exact ⟨_, _, _, answering.silent (by simp [exchangesOf]) rfl⟩
  | sent => exact ⟨_, _, _, answering.silent (exchangesOf_sent ..) rfl⟩
  | handled _ _ _ executed =>
      obtain ⟨answer, later, still⟩ := answering.handles executed
      exact ⟨_, _, _, still _ rfl⟩
  | written => exact ⟨_, _, _, answering.silent (by simp [exchangesOf]) rfl⟩
  | printed => exact ⟨_, _, _, answering.silent (exchangesOf_printed ..) rfl⟩

end Answers

/-- While the client waits, a command, a call of `write` or a part of the answer is pending. -/
def Busy (session : Session) : Prop :=
  session.reading = true → session.requests ≠ [] ∨ session.writes ≠ [] ∨ session.replies ≠ []

theorem line_text_nonempty (line : Line) : line.text ≠ [] := by
  intro empty
  have formed := line.formed
  rw [show cString line.buf = [] from empty] at formed
  exact absurd formed (by decide)

/-- A command that is neither `EXIT` nor `CONFIG` is answered with at least one call of `write`. -/
theorem writes_nonempty {server after : Server} {request : Request} {response : Response}
    (answered : Server.Answered server request response after) (running : verb request.cmd ≠ .exit)
    (setCommand : verb request.cmd ≠ .config) : response.writes ≠ [] := by
  cases answered with
  | left action => exact absurd action running
  | misconfigured action => exact absurd action setCommand
  | configured action => exact absurd action setCommand
  | unconfigured action => exact absurd action setCommand
  | absent => cases verb request.cmd <;> exact List.cons_ne_nil _ _
  | accessed _ _ _ dispatched =>
      cases dispatched with
      | usage => cases verb request.cmd <;> exact List.cons_ne_nil _ _
      | _ => exact List.cons_ne_nil _ _
  | _ => exact List.cons_ne_nil _ _

theorem verb_of_wellFormed {words : List Str} (formed : wellFormed words = true) :
    verb (words.headD []) ≠ .exit ∧ verb (words.headD []) ≠ .config := by
  unfold wellFormed at formed
  split at formed
  · cases formed
  · rename_i cmd args
    rw [List.headD_cons]
    split at formed <;> rename_i action
    all_goals first | exact absurd formed (by decide) | (rw [action]; decide)

/-- A command that the handler receives whole is answered with at least one call of `write`. -/
theorem Balanced.answers (balanced : Balanced trace session) (waiting : session.requests ≠ []) {request : Request}
    {response : Response} {server : Server} (buffer : request.buffer = session.requests.take 1023)
    (returned : session.server.handle request = .ok (response, server)) : response.writes ≠ [] := by
  obtain ⟨asked, answers, pending, _⟩ := balanced.pending
  cases pending with
  | typing _ requests => exact absurd requests waiting
  | answering _ requests => exact absurd requests waiting
  | asked line reading requests writes replies =>
      have fits : line.text.length ≤ 1023 := (List.takeWhile_sublist _).length_le.trans line.fits
      have whole : request.buffer = line.text := by rw [buffer, requests, List.take_of_length_le fits]
      have formed : wellFormed request.words = true := by
        have again : cString line.text = line.text := List.takeWhile_idem ..
        rw [Request.words, whole, again]
        exact line.formed
      obtain ⟨running, setCommand⟩ := verb_of_wellFormed formed
      exact writes_nonempty (Server.handle_answered returned) running setCommand

theorem Busy.stepped (busy : session.Busy) (balanced : Balanced trace session) {event : Event}
    (stepped : Stepped session event next) : next.Busy := by
  cases stepped with
  | idle => exact busy
  | sent line => exact fun _ => Or.inl (List.append_ne_nil_of_right_ne_nil _ (line_text_nonempty line))
  | handled buffer waiting _ executed => exact fun _ => Or.inr (Or.inl (balanced.answers waiting buffer executed))
  | @written text rest left =>
      obtain ⟨asked, answers, pending, _⟩ := balanced.pending
      cases pending with
      | typing _ _ writes => simp [left] at writes
      | asked _ _ _ writes => simp [left] at writes
      | answering _ _ _ nonempty =>
          have first := nonempty text (by simp [left])
          exact fun _ => Or.inr (Or.inr (List.append_ne_nil_of_right_ne_nil _ first))
  | printed => exact fun reading => absurd reading Bool.false_ne_true

/-- After the handler has answered, its calls of `write` and one `read` bring the answer to the client. -/
theorem answer_arrives (balanced : Balanced trace session) (busy : session.Busy) (waiting : session.reading = true)
    (handled : session.requests = []) :
    ∃ later events final, (∀ action ∈ later, ∀ line, action ≠ .send line) ∧
      run step session later = .ok (events, final) ∧ final.reading = false ∧ Balanced (trace ++ events) final := by
  induction left : session.writes generalizing session trace with
  | nil =>
      have arrived : session.replies ≠ [] := by
        rcases busy waiting with requests | writes | replies
        · exact absurd handled requests
        · exact absurd left writes
        · exact replies
      obtain ⟨event, final, stepped, still⟩ := balanced.read fun _ _ => left
      refine ⟨[.read], [event], final, by simp, by simp [run_cons, stepped], ?_, still⟩
      rw [step, if_pos (by simp [waiting, arrived])] at stepped
      obtain ⟨_, rfl⟩ := Prod.mk.inj (Except.ok.inj stepped)
      rfl
  | cons text rest ih =>
      obtain ⟨event, next, stepped, still⟩ := balanced.write
      have calm := busy.stepped balanced (step_stepped stepped)
      have same := stepped
      rw [step, left] at same
      obtain ⟨_, rfl⟩ := Prod.mk.inj (Except.ok.inj same)
      obtain ⟨later, events, final, silent, continued, finished, last⟩ := ih still calm waiting handled rfl
      refine ⟨.write :: later, event :: events, final, ?_, by simp [run_cons, stepped, continued], finished, ?_⟩
      · simpa using silent
      · simpa using last

/-- A waiting client is answered. -/
theorem Balanced.finishes (balanced : Balanced trace session) (busy : session.Busy) (waiting : session.reading = true)
    (running : session.server.control = .processing) :
    ∃ later events final, (∀ action ∈ later, ∀ line, action ≠ .send line) ∧
      run step session later = .ok (events, final) ∧ final.reading = false ∧ Balanced (trace ++ events) final := by
  by_cases handled : session.requests = []
  · exact answer_arrives balanced busy waiting handled
  · obtain ⟨line, requests, writes⟩ : ∃ line : Line, session.requests = line.text ∧ session.writes = [] := by
      obtain ⟨asked, answers, pending, _⟩ := balanced.pending
      cases pending with
      | typing reading => simp [waiting] at reading
      | asked line _ requests writes => exact ⟨line, requests, writes⟩
      | answering _ requests => exact absurd requests handled
    have fits : line.text.length ≤ 1023 := (List.takeWhile_sublist _).length_le.trans line.fits
    obtain ⟨event, next, stepped, still⟩ := balanced.recv 0 [] ⟨0, by decide⟩ fun _ => true
    have calm := busy.stepped balanced (step_stepped stepped)
    have same := stepped
    rw [step, if_neg (by simp [handled, writes, running])] at same
    obtain ⟨⟨response, server⟩, _, same⟩ := (Exec.bind_eq_ok _ _ _).mp same
    obtain ⟨_, rfl⟩ := Prod.mk.inj (Except.ok.inj same)
    have empty : session.requests.drop 1023 = [] := by rw [requests, List.drop_eq_nil_of_le fits]
    obtain ⟨later, events, final, silent, continued, finished, last⟩ := answer_arrives still calm waiting empty
    refine ⟨.recv 0 [] ⟨0, by decide⟩ (fun _ => true) :: later, event :: events, final, ?_, ?_, finished, ?_⟩
    · exact List.forall_mem_cons.mpr ⟨fun line => by simp, silent⟩
    · rw [run_cons, stepped]
      dsimp only [Exec.ok_bind]
      rw [continued]
      rfl
    · simpa using last

/-- With a server that has not stopped, a waiting client is never stuck: from every state that whole reads can reach, the
handler, its calls of `write` and one `read` finish the pending command and pair its answer with it. -/
theorem waiting_client_answered (steps : List Server.Step) (responses : List Response) (server : Server)
    (reached : run Server.step Server.new steps = .ok (responses, server)) (actions : List Action) (trace : List Event)
    (session : Session) (whole : Meets step Whole (start server) actions)
    (returned : run step (start server) actions = .ok (trace, session)) (waiting : session.reading = true)
    (running : session.server.control = .processing) :
    ∃ later events final, (∀ action ∈ later, ∀ line, action ≠ .send line) ∧
      run step session later = .ok (events, final) ∧ final.reading = false ∧ Paired (trace ++ events) ∧
      (printsOf (trace ++ events)).length = (commandsOf (trace ++ events)).length := by
  obtain ⟨balanced, busy⟩ := run_outputs_of_meets step Whole
    (fun trace session => Balanced trace session ∧ session.Busy) (by
      rintro past state action event next ⟨balanced, busy⟩ complete stepped
      obtain ⟨other, after, same, still⟩ := balanced.stepped complete
      obtain ⟨rfl, rfl⟩ := Prod.mk.inj (Except.ok.inj (same.symm.trans stepped))
      exact ⟨still, busy.stepped balanced (step_stepped stepped)⟩)
    [] (start server) session actions trace
    ⟨start_balanced (Server.reached_sound reached), fun reading => absurd reading Bool.false_ne_true⟩ whole returned
  rw [List.nil_append] at balanced
  obtain ⟨later, events, final, silent, continued, finished, last⟩ := balanced.finishes busy waiting running
  obtain ⟨_, _, _, accounted⟩ := last.pending
  have all : run step (start server) (actions ++ later) = .ok (trace ++ events, final) :=
    (run_append_eq_ok ..).mpr ⟨trace, session, events, returned, continued, rfl⟩
  have turns := (delivered_of_run all).turns
  rw [finished] at turns
  exact ⟨later, events, final, silent, continued, finished, accounted.paired, by simpa using turns.symm⟩

/-- The client has sent one command, and nothing has happened since. -/
theorem waiting_client_answered_first :
    ∃ trace session, run step (start Server.new) [.send ⟨bytes "ZADD set 5 b", by decide, by decide +kernel⟩] =
        .ok (trace, session) ∧
      ∃ later events final, (∀ action ∈ later, ∀ line, action ≠ .send line) ∧
        run step session later = .ok (events, final) ∧ final.reading = false ∧ Paired (trace ++ events) ∧
        (printsOf (trace ++ events)).length = (commandsOf (trace ++ events)).length :=
  ⟨_, _, rfl, waiting_client_answered [] [] Server.new rfl
    [.send ⟨bytes "ZADD set 5 b", by decide, by decide +kernel⟩] _ _ (.cons True.intro rfl .nil) rfl rfl rfl⟩

end Session

end MySkipList
