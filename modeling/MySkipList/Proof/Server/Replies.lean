import MySkipList.Proof.Server.Totality

namespace MySkipList

open Foundation

/-- The bytes that the client receives for one command. -/
def Response.sent (response : Response) : Str := response.writes.flatten

/-- Exactly one line with its line break. -/
def OneLine (text : Str) : Prop := ∃ line, newline ∉ line ∧ text = line ++ [newline]

/-- A line with at least one byte before its line break. -/
def NonemptyLine (text : Str) : Prop := ∃ line, line ≠ [] ∧ newline ∉ line ∧ text = line ++ [newline]

theorem NonemptyLine.oneLine {text : Str} (nonempty : NonemptyLine text) : OneLine text := by
  obtain ⟨line, _, unbroken, form⟩ := nonempty
  exact ⟨line, unbroken, form⟩

theorem oneLine_append {line : Str} (unbroken : newline ∉ line) : OneLine (line ++ [newline]) := ⟨line, unbroken, rfl⟩

theorem nonemptyLine_iff {line : Str} (unbroken : newline ∉ line) : NonemptyLine (line ++ [newline]) ↔ line ≠ [] := by
  constructor
  · rintro ⟨other, nonempty, _, same⟩
    rwa [List.append_cancel_right same]
  · intro nonempty
    exact ⟨line, nonempty, unbroken, rfl⟩

/-- A text that ends with its only line break is one line. -/
theorem nonemptyLine_of_last {text : Str}
    (last : text.getLast? = some newline ∧ newline ∉ text.dropLast ∧ text.dropLast ≠ []) : NonemptyLine text :=
  ⟨text.dropLast, last.2.2, last.2.1, (List.dropLast_append_getLast? newline last.1).symm⟩

/-- A number and its line break are one line. -/
theorem sent_number (value : Int) :
    (Response.number value).sent = decimal value ++ [newline] ∧ newline ∉ decimal value := by
  refine ⟨by simp [Response.sent, Response.number], ?_⟩
  intro member
  exact (decimal_bytes value newline member).2 rfl

namespace Server

section Rejections
variable {server next : Server} {request : Request} {response : Response}

/-- The answer starts as the usage texts do. -/
def Rejects (response : Response) : Prop := bytes "Usage" <+: response.sent

instance (response : Response) : Decidable (Rejects response) := inferInstanceAs (Decidable (_ <+: _))

theorem number_not_rejects (value : Int) : ¬ Rejects (.number value) := by
  rintro ⟨rest, same⟩
  obtain ⟨first, later, form, digit⟩ := decimal_head value
  have head : (bytes "Usage").head? = some first := by
    have heads := congrArg List.head? same
    rw [(sent_number value).1, form] at heads
    exact heads
  rcases digit with digit | minus
  · have other : (bytes "Usage").head?.map isDigit = some false := by decide
    rw [head, Option.map_some, digit] at other
    exact absurd (Option.some.inj other) (by decide)
  · have other : (bytes "Usage").head? ≠ (bytes "-").head? := by decide
    exact other (by rw [head, minus, List.head?_cons])

theorem missing_not_rejects (action : Verb) : ¬ Rejects (missing action) := by
  cases action <;> decide

/-- The sets, the deadlines and the configuration are the same. -/
structure SameStore (server next : Server) : Prop where
  sets : ∀ key, next.map.lookup key = server.map.lookup key
  timer : next.timer = server.timer
  configs : next.configs = server.configs

/-- The command is a `ZADD` on a key that has no set. -/
def Fresh (server : Server) (request : Request) : Prop :=
  verb request.cmd = .zadd ∧ ∃ key, request.args.head? = some key ∧ server.map.lookup key = none

/-- A command that is answered with a usage text keeps the store, except for a `ZADD` on a key that has no set:
it leaves an empty set there. -/
theorem rejected_same_iff (server next : Server) (request : Request) (response : Response)
    (returned : server.handle request = .ok (response, next)) (rejects : Rejects response) :
    SameStore server next ↔ ¬ Fresh server request := by
  have kept (other : verb request.cmd ≠ .zadd) : SameStore server server ↔ ¬ Fresh server request :=
    ⟨fun _ fresh => other fresh.1, fun _ => ⟨fun _ => rfl, rfl, rfl⟩⟩
  cases handle_answered returned with
  | left => exact absurd rejects (by decide)
  | saved =>
      have confirms : ¬ Rejects (.text (bytes "OK\n") 3) := by decide
      exact absurd rejects confirms
  | misconfigured action => exact kept (by simp [action])
  | configured => exact absurd rejects (number_not_rejects _)
  | unconfigured => exact absurd rejects (by decide)
  | mistimed action => exact kept (by simp [action])
  | timed => exact absurd rejects (number_not_rejects _)
  | absent => exact absurd rejects (missing_not_rejects _)
  | @accessed key _ _ _ _ named located _ dispatched stored =>
      cases dispatched with
      | inserted | searched | deleted | counted => exact absurd rejects (number_not_rejects _)
      | displayed => exact absurd rejects (by decide)
      | usage =>
          have here := stored key
          rw [if_pos rfl] at here
          cases located with
          | present found =>
              refine ⟨?_, fun _ => ⟨?_, rfl, rfl⟩⟩
              · rintro _ ⟨_, other, first, absent⟩
                obtain rfl : key = other := Option.some.inj (named.symm.trans first)
                rw [found] at absent
                exact absurd absent (Option.some_ne_none _)
              · intro query
                rw [stored]
                split
                · rename_i same
                  rw [same, found]
                · rfl
          | created adds absent =>
              refine ⟨?_, fun old => absurd ⟨adds, key, named, absent⟩ old⟩
              intro same
              have gone := same.sets key
              rw [here, absent] at gone
              exact absurd gone (Option.some_ne_none _)

/-- A `ZCARD` with one argument too many, on a key that has a set and a deadline. -/
theorem rejected_same_iff_surplus :
    ∃ responses server response next,
      run step Server.new [.event (.receive (plain "ZADD k 1 a")), .event (.receive (plain "EXPIRE k 5"))] =
        .ok (responses, server) ∧
      server.handle (plain "ZCARD k x") = .ok (response, next) ∧ Rejects response ∧
      (SameStore server next ↔ ¬ Fresh server (plain "ZCARD k x")) ∧ SameStore server next :=
  ⟨_, _, _, _, rfl, rfl, by decide, rejected_same_iff _ _ (plain "ZCARD k x") _ rfl (by decide),
    (rejected_same_iff _ _ (plain "ZCARD k x") _ rfl (by decide)).mpr fun fresh => absurd fresh.1 (by decide)⟩

/-- A `ZADD` with too few arguments is rejected and creates its key. -/
theorem rejected_creates_key :
    ∃ response next, Server.new.handle (plain "ZADD k") = .ok (response, next) ∧ Rejects response ∧
      ¬ SameStore Server.new next := by
  refine ⟨_, _, rfl, by decide, ?_⟩
  intro same
  have created : true = false := congrArg Option.isSome (same.sets (bytes "k"))
  exact absurd created (by decide)

end Rejections

section Lines
variable {server next : Server} {request : Request} {response : Response}

/-- A `CONFIG` command sets the maximum. -/
def SetsMaximum (args : List Str) : Prop :=
  ∃ first name text, args = [first, name, text] ∧ (first = bytes "SET" ∨ first = bytes "set") ∧
    (name = bytes "maxmemory" ∨ name = bytes "MAXMEMORY")

/-- The command is a `ZDIS` on a key that has no set. -/
def Undisplayed (server : Server) (request : Request) : Prop :=
  verb request.cmd = .zdis ∧ ∃ key, request.args.head? = some key ∧ server.map.lookup key = none

theorem nonemptyLine_of_number (value : Int) : NonemptyLine (Response.number value).sent := by
  obtain ⟨form, unbroken⟩ := sent_number value
  exact ⟨decimal value, decimal_nonempty value, unbroken, form⟩

/-- Every usage text of a set command is one line. -/
theorem nonemptyLine_of_usage (action : Verb) : NonemptyLine (usage action).sent := by
  have general : NonemptyLine (usage .unknown).sent := nonemptyLine_of_last (by decide +kernel)
  cases action with
  | zadd => exact nonemptyLine_of_last (by decide +kernel)
  | zscore => exact nonemptyLine_of_last (by decide +kernel)
  | zrem => exact nonemptyLine_of_last (by decide +kernel)
  | zcard => exact nonemptyLine_of_last (by decide +kernel)
  | zdis => exact nonemptyLine_of_last (by decide +kernel)
  | _ => exact general

theorem nonemptyLine_of_dispatched {action : Verb} {list final : SkipList Str CInt}
    (dispatched : Dispatched action list response final) : NonemptyLine response.sent := by
  cases dispatched with
  | usage => exact nonemptyLine_of_usage action
  | inserted | searched | deleted | counted => exact nonemptyLine_of_number _
  | displayed => exact ⟨bytes "1", by decide, by decide, rfl⟩

/-- A text without a line break at its end is no line. -/
theorem not_oneLine {text : Str} (last : text.getLast? ≠ some newline) : ¬ OneLine text := by
  rintro ⟨line, _, rfl⟩
  exact last List.getLast?_concat

/-- What the answers of a command are: a line with bytes before its line break, the empty line of `ZDIS` for
a key that has no set, or, for a `CONFIG` that does not set the maximum, no line. -/
theorem Answered.line (answered : Answered server request response next) (running : verb request.cmd ≠ .exit) :
    (NonemptyLine response.sent ∧ ¬ Undisplayed server request ∧ (verb request.cmd = .config → SetsMaximum request.args)) ∨
      (response.sent = [newline] ∧ Undisplayed server request ∧ verb request.cmd ≠ .config) ∨
      (¬ OneLine response.sent ∧ verb request.cmd = .config ∧ ¬ SetsMaximum request.args) := by
  cases answered with
  | left action => exact absurd action running
  | saved action =>
      have line : NonemptyLine (Response.text (bytes "OK\n") 3).sent := nonemptyLine_of_last (by decide)
      exact Or.inl ⟨line, by simp [Undisplayed, action], by simp [action]⟩
  | misconfigured action count =>
      refine Or.inr (Or.inr ⟨not_oneLine (by decide +kernel), action, ?_⟩)
      rintro ⟨first, name, text, args, _⟩
      simp [args] at count
  | configured action args sets maximum =>
      exact Or.inl ⟨nonemptyLine_of_number _, by simp [Undisplayed, action], fun _ => ⟨_, _, _, args, sets, maximum⟩⟩
  | unconfigured action args other =>
      refine Or.inr (Or.inr ⟨not_oneLine (by decide), action, ?_⟩)
      rintro ⟨first, name, text, same, sets, maximum⟩
      rw [args] at same
      simp only [List.cons.injEq, and_true] at same
      obtain ⟨rfl, rfl, rfl⟩ := same
      exact other ⟨sets, maximum⟩
  | mistimed action =>
      exact Or.inl ⟨nonemptyLine_of_last (by decide +kernel), by simp [Undisplayed, action], by simp [action]⟩
  | timed action => exact Or.inl ⟨nonemptyLine_of_number _, by simp [Undisplayed, action], by simp [action]⟩
  | absent named unknown _ _ setCommand =>
      by_cases display : verb request.cmd = .zdis
      · refine Or.inr (Or.inl ⟨?_, ⟨display, _, named, unknown⟩, setCommand⟩)
        rw [display]
        decide
      · refine Or.inl ⟨?_, fun undisplayed => display undisplayed.1, fun action => absurd action setCommand⟩
        generalize verb request.cmd = action at display
        cases action with
        | zdis => exact absurd rfl display
        | _ => exact nonemptyLine_of_last (by decide)
  | accessed named located setCommand dispatched =>
      refine Or.inl ⟨nonemptyLine_of_dispatched dispatched, ?_, fun action => absurd action setCommand⟩
      rintro ⟨display, other, first, absent⟩
      obtain rfl := Option.some.inj (named.symm.trans first)
      cases located with
      | present found => simp [found] at absent
      | created adds => simp [adds] at display

/-- In every reachable server, a command that finishes is answered with exactly one line unless it is a `CONFIG`
that does not set the maximum, and the line has bytes unless it answers a `ZDIS` on a key that has no set. -/
theorem one_reply_iff (steps : List Step) (responses : List Response) (server : Server)
    (reached : run step Server.new steps = .ok (responses, server)) (request : Request)
    (answerable : request.Answerable) (running : verb request.cmd ≠ .exit) :
    ∃ response next, server.handle request = .ok (response, next) ∧
      (NonemptyLine response.sent ↔
        (verb request.cmd = .config → SetsMaximum request.args) ∧ ¬ Undisplayed server request) ∧
      (OneLine response.sent ↔ (verb request.cmd = .config → SetsMaximum request.args)) := by
  obtain ⟨⟨response, next⟩, returned⟩ := (handle_returns (reached_sound reached) request).mpr answerable
  refine ⟨response, next, returned, ?_⟩
  rcases (handle_answered returned).line running with ⟨line, displayed, sets⟩ | ⟨empty, undisplayed, other⟩ |
    ⟨none, action, other⟩
  · have one : OneLine response.sent := line.oneLine
    exact ⟨⟨fun _ => ⟨sets, displayed⟩, fun _ => line⟩, ⟨fun _ => sets, fun _ => one⟩⟩
  · rw [empty]
    have unbroken : newline ∉ ([] : Str) := List.not_mem_nil
    refine ⟨⟨?_, fun facts => absurd undisplayed facts.2⟩, ⟨fun _ action => absurd action other, ?_⟩⟩
    · intro line
      exact absurd rfl ((nonemptyLine_iff unbroken).mp line)
    · exact fun _ => oneLine_append unbroken
  · refine ⟨⟨?_, fun facts => absurd (facts.1 action) other⟩, ⟨fun line => absurd line none, ?_⟩⟩
    · exact fun line => absurd line.oneLine none
    · exact fun sets => absurd (sets action) other

theorem one_reply_iff_scored :
    ∃ responses server, run step Server.new [.event (.receive (plain "ZADD k 1 a\n"))] = .ok (responses, server) ∧
      ∃ response next, server.handle (plain "ZSCORE k a\n") = .ok (response, next) ∧
        (NonemptyLine response.sent ↔ (verb (plain "ZSCORE k a\n").cmd = .config →
          SetsMaximum (plain "ZSCORE k a\n").args) ∧ ¬ Undisplayed server (plain "ZSCORE k a\n")) ∧
        (OneLine response.sent ↔ (verb (plain "ZSCORE k a\n").cmd = .config →
          SetsMaximum (plain "ZSCORE k a\n").args)) :=
  ⟨_, _, rfl, one_reply_iff [.event (.receive (plain "ZADD k 1 a\n"))] _ _ rfl (plain "ZSCORE k a\n")
    (List.cons_ne_nil _ _) (by decide)⟩

/-- The usage text of `CONFIG` lacks its line break, and a `CONFIG` with another action is not answered. -/
theorem config_without_line :
    (∃ response next, Server.new.handle (plain "CONFIG\n") = .ok (response, next) ∧
      response.sent = bytes "Usage: CONFIG SET maxmemory [number]" ∧ ¬ OneLine response.sent) ∧
    ∃ response next, Server.new.handle (plain "CONFIG GET maxmemory 1\n") = .ok (response, next) ∧
      response.sent = [] ∧ ¬ OneLine response.sent :=
  ⟨⟨_, _, rfl, by decide +kernel, not_oneLine (by decide +kernel)⟩, ⟨_, _, rfl, by decide, not_oneLine (by decide)⟩⟩

end Lines

end Server

end MySkipList
