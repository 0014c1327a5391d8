import ThreeAddress.Proofs.Grammar.Climbing
import ThreeAddress.Proofs.Grammar.Descent
import ThreeAddress.Proofs.Grammar.Language

namespace ThreeAddress

/-!
# What reading on demand takes

A routine follows a reader if it has the same result from the lookahead on, and the same
scopes, and if all that it records is sound. This is kept by the ways in which routines and
readers are put together. They differ where the tokens break off: a reader notices when it
needs a token, and a routine one token earlier, as it looks for the next lookahead.
-/

namespace Lexer

/-- The results of a lexer, up to the end of the text or the first fault. -/
def Reading.results (reading : Reading) : List (Except LexicalError Token) :=
  reading.tokens.map .ok ++ (reading.failure.map .error).toList

variable {lexer after : Lexer}

theorem run_of_error {error : LexicalError} (read : lexer.next = (.error error, after)) :
    lexer.run = ⟨[], some error⟩ := by
  rw [run]
  split
  · next found =>
      rw [read] at found
      cases found
      rfl
  · next found =>
      rw [read] at found
      cases found

/-- A reading starts with the next token, and it goes on if the text does. -/
theorem run_of_token {token : Token} (read : lexer.next = (.ok token, after)) :
    lexer.run.steps.head? = some ⟨token, after⟩ ∧
      (token.kind ≠ .eof → after.run = ⟨lexer.run.steps.tail, lexer.run.failure⟩) := by
  rw [run]
  split
  · next found =>
      rw [read] at found
      cases found
  · next found =>
      rw [read] at found
      cases found
      split
      · next ended => exact ⟨rfl, fun inside => (inside ended).elim⟩
      · exact ⟨rfl, fun _ => rfl⟩

/-- Each token but the end of the text takes a character at least. -/
theorem steps_length_le (lexer : Lexer) : lexer.run.steps.length ≤ lexer.rest.length + 1 := by
  fun_induction run lexer with
  | case1 lexer error after read => exact Nat.zero_le _
  | case2 lexer token after read ended => exact Nat.le_add_left _ _
  | case3 lexer token after read inside reading ih =>
      have shorter := next_rest_length read inside
      have more : reading.steps.length ≤ after.rest.length + 1 := ih
      rw [List.length_cons]
      omega

end Lexer

namespace Descent

open Grammar Reader

/-- A routine calls at the same token only those of a higher rank. -/
def Routine.rank : Routine → Nat
  | .program => 0
  | .statement => 1
  | .block | .declaration | .assignment | .ifThen | .whileDo | .doWhile | .breakLoop => 2
  | .expression => 3
  | .factor => 4
  | .location => 5
  | .binary => 6
  | .sizes => 7

/-- A token has been consumed in the pass of a loop, and since a routine has been called that is
called again before it returns. -/
def Event.Consumes : Event → Prop
  | .called active call =>
      ∀ outer ∈ active, outer.routine = call.routine → outer.start < call.start
  | .passed _ start stop => start < stop

/-- The lexer has been called no more often than it has results, the consumed tokens are among
these, without the end of the text, and whatever repeats has consumed a token. -/
structure Trace.Sound (reading : Lexer.Reading) (trace : Trace) : Prop where
  results : trace.results <+: reading.results
  consumed : trace.consumed.map .ok <+: trace.results
  inside : Inside trace.consumed
  events : ∀ event ∈ trace.events, event.Consumes

/-- The lookahead is the first of these tokens. -/
structure Session.At (reading : Lexer.Reading) (unread : List Token) (session : Session) :
    Prop where
  tokens : reading.tokens = session.trace.consumed ++ unread
  here : reading.steps[session.place]? = some ⟨session.look, session.lexer⟩
  ahead : session.look.kind ≠ .eof → session.lexer.run =
    ⟨reading.steps.drop (session.place + 1), reading.failure⟩
  results : session.trace.results = (session.trace.consumed ++ [session.look]).map .ok
  inside : Inside session.trace.consumed
  events : ∀ event ∈ session.trace.events, event.Consumes

/-- Whichever routine is active has been called before this token, or has a lower rank. -/
def Session.Under (rank : Nat) (session : Session) : Prop :=
  ∀ call ∈ session.active,
    call.start < session.place ∨ call.start = session.place ∧ call.routine.rank < rank

/-- The reading stops for this reason. -/
def Halts {α : Type} (reading : Lexer.Reading) (halt : Halt)
    (outcome : Except Halt α × Session) : Prop :=
  outcome.1 = .error halt ∧ outcome.2.trace.Sound reading

/-- The reading stops at the lexical fault behind the last token. -/
def HaltsBehind {α : Type} (reading : Lexer.Reading) (outcome : Except Halt α × Session) : Prop :=
  ∃ error, reading.failure = some error ∧ Halts reading (.refused (.lexical error)) outcome

/-- The reading goes on from this session with the tokens that are left. -/
structure GoesOn {α : Type} (reading : Lexer.Reading) (before : Session) (value : α)
    (scopes : Scopes) (rest : List Token) (outcome : Except Halt α × Session) : Prop where
  value : outcome.1 = .ok value
  stands : outcome.2.At reading rest
  scopes : outcome.2.scopes = scopes
  active : outcome.2.active = before.active
  onward : before.place ≤ outcome.2.place

/-- A reader that is given all tokens has come to the same result. Where it leaves no token, a
lexical fault has been met in looking for one. -/
def Agrees {α β : Type} (reading : Lexer.Reading) (before : Session) (out : β → α × Scopes) :
    Except Failure (β × List Token) → Except Halt α × Session → Prop
  | .ok (_, []) => HaltsBehind reading
  | .ok (value, token :: rest) =>
      GoesOn reading before (out value).1 (out value).2 (token :: rest)
  | .error .brokenOff => HaltsBehind reading
  | .error (.unexpected fault unread) =>
      Halts reading (.refused (.syntactic fault (reading.excerpt fault unread)))

/-- A routine reads these tokens like a reader. -/
def Follows {α β : Type} (reading : Lexer.Reading) (rank : Nat) (out : β → α × Scopes)
    (run : Parsing α) (reader : Reader β) (scopes : Scopes) (unread : List Token) : Prop :=
  ∀ session : Session, session.At reading unread → session.scopes = scopes →
    session.Under rank → Agrees reading session out (reader unread) (run session)

variable {α β γ δ : Type} {reading : Lexer.Reading} {session : Session} {unread rest : List Token}
  {token : Token} {rank limit : Nat} {scopes : Scopes}

namespace Session.At

theorem head (stands : session.At reading unread) : ∃ rest, unread = session.look :: rest := by
  have found : reading.tokens[session.place]? = some session.look := by
    rw [Lexer.Reading.tokens, List.getElem?_map, stands.here]
    rfl
  rw [stands.tokens, Session.place, List.getElem?_append_right (Nat.le_refl _),
    Nat.sub_self] at found
  cases unread with
  | nil => cases found
  | cons token rest =>
      cases found
      exact ⟨rest, rfl⟩

theorem look_eq (stands : session.At reading (token :: rest)) : session.look = token := by
  obtain ⟨_, same⟩ := stands.head
  exact (List.cons.inj same).1.symm

theorem count (stands : session.At reading unread) :
    session.place + unread.length = reading.tokens.length := by
  rw [stands.tokens, List.length_append, Session.place]

theorem sound (stands : session.At reading unread) : session.trace.Sound reading := by
  obtain ⟨rest, rfl⟩ := stands.head
  refine ⟨⟨rest.map .ok ++ (reading.failure.map .error).toList, ?_⟩, ?_, stands.inside,
    stands.events⟩
  · rw [stands.results, Lexer.Reading.results, stands.tokens]
    simp
  · rw [stands.results, List.map_append]
    exact List.prefix_append _ _

/-- The tokens behind the lookahead have been read from the steps behind it. -/
theorem steps (stands : session.At reading (token :: rest)) :
    (reading.steps.drop (session.place + 1)).map Lexer.Step.token = rest := by
  have tokens : reading.tokens.drop (session.place + 1) = rest := by
    rw [stands.tokens, Session.place, ← List.drop_drop, List.drop_left]
    rfl
  rw [← tokens, Lexer.Reading.tokens, List.map_drop]

/-- A record of what has happened changes nothing else. -/
theorem record {event : Event} (stands : session.At reading unread) (active : List Call)
    (consumes : event.Consumes) : Session.At reading unread { session with
      active
      trace.events := session.trace.events ++ [event] } where
  tokens := stands.tokens
  here := stands.here
  ahead := stands.ahead
  results := stands.results
  inside := stands.inside
  events := List.forall_mem_append.mpr ⟨stands.events, List.forall_mem_singleton.mpr consumes⟩

theorem leave (stands : session.At reading unread) (active : List Call) :
    Session.At reading unread { session with active } :=
  ⟨stands.tokens, stands.here, stands.ahead, stands.results, stands.inside, stands.events⟩

end Session.At

/-- Consuming a token that does not end the text, the lexer returns the next one or the fault. -/
theorem advance_step (stands : session.At reading (token :: rest)) (inside : token.kind ≠ .eof) :
    (rest = [] ∧ HaltsBehind reading (advance session)) ∨
      GoesOn reading session token session.scopes rest (advance session) ∧
        session.place < (advance session).2.place := by
  obtain rfl := stands.look_eq
  have runs := stands.ahead inside
  have others := stands.steps
  have consumed : Inside (session.trace.consumed ++ [session.look]) :=
    stands.inside.append (.cons inside .nil)
  match read : session.lexer.next with
  | (.error error, after) =>
      rw [Lexer.run_of_error read] at runs
      injection runs with none failed
      rw [← none] at others
      obtain rfl : rest = [] := others.symm
      refine .inl ⟨rfl, error, failed.symm, ?_, ?_⟩
      · simp only [advance, read]
      · simp only [advance, read]
        refine ⟨?_, ?_, stands.inside, stands.events⟩
        · rw [Lexer.Reading.results, ← failed, stands.tokens, stands.results]
          exact List.prefix_rfl
        · rw [stands.results, List.map_append, List.append_assoc]
          exact List.prefix_append _ _
  | (.ok next, after) =>
      obtain ⟨first, onward⟩ := Lexer.run_of_token read
      rw [runs] at first onward
      have place : (session.trace.consumed ++ [session.look]).length = session.place + 1 := by
        rw [List.length_append, List.length_singleton, Session.place]
      refine .inr ⟨⟨?_, ⟨?_, ?_, ?_, ?_, ?_, ?_⟩, ?_, ?_, ?_⟩, ?_⟩
      all_goals simp only [advance, read, Session.place, place]
      · rw [stands.tokens, List.append_assoc, List.singleton_append]
      · rw [← List.head?_drop]
        exact first
      · rw [← List.tail_drop]
        exact onward
      · rw [stands.results]
        simp
      · exact consumed
      · exact stands.events
      · exact Nat.le_succ _
      · exact Nat.lt_succ_self _

/-- Refusing the lookahead stops where the tokens are that are left. -/
theorem fail_halts {fault : SyntaxFault} (stands : session.At reading unread) :
    Halts (α := α) reading (.refused (.syntactic fault (reading.excerpt fault unread)))
      (fail fault session) := by
  have place : reading.steps.length - unread.length = session.place := by
    have count := stands.count
    rw [Lexer.Reading.tokens, List.length_map] at count
    omega
  have excerpt : reading.excerpt fault unread = { session.lexer with
      missingSemicolon := decide (fault = SyntaxFault.missingSemicolon) }.excerpt.1 := by
    rw [Lexer.Reading.excerpt, place, stands.here]
  refine ⟨?_, stands.sound⟩
  rw [excerpt]
  rfl

namespace Session.Under

theorem mono (under : session.Under rank) (le : rank ≤ limit) : session.Under limit := by
  intro call member
  exact (under call member).imp_right fun here => ⟨here.1, Nat.lt_of_lt_of_le here.2 le⟩

/-- What is active stays below a rank while the reading goes on. -/
theorem onward {later : Session} (under : session.Under rank)
    (active : later.active = session.active) (place : session.place ≤ later.place) :
    later.Under rank := by
  intro call member
  rcases under call (active ▸ member) with earlier | ⟨here, lower⟩
  · exact .inl (Nat.lt_of_lt_of_le earlier place)
  · rcases Nat.lt_or_eq_of_le place with moved | same
    · exact .inl (here ▸ moved)
    · exact .inr ⟨here.trans same, lower⟩

/-- Once a token is consumed, every routine may be called. -/
theorem consumed {later : Session} (under : session.Under rank)
    (active : later.active = session.active) (place : session.place < later.place) :
    later.Under 0 := by
  intro call member
  rcases under call (active ▸ member) with earlier | ⟨here, -⟩
  · exact .inl (Nat.lt_trans earlier place)
  · exact .inl (here ▸ place)

end Session.Under

/-- The value of a reader that leaves the scopes as they are. -/
def keeping (scopes : Scopes) (value : α) : α × Scopes :=
  (value, scopes)

theorem bind_apply (first : Parsing α) (next : α → Parsing γ) (session : Session) :
    (first >>= next) session =
      match first session with
      | (.ok value, later) => next value later
      | (.error halt, later) => (.error halt, later) :=
  rfl

theorem bind_assoc (first : Parsing α) (second : α → Parsing β) (third : β → Parsing γ) :
    (first >>= second) >>= third = first >>= fun value => second value >>= third := by
  funext session
  simp only [bind_apply]
  rcases first session with ⟨halt | value, later⟩ <;> rfl

theorem bind_pure (first : Parsing α) : first >>= Pure.pure = first := by
  funext session
  rw [bind_apply]
  rcases first session with ⟨halt | value, later⟩ <;> rfl

theorem Halts.bind {halt : Halt} {first : Parsing α} {next : α → Parsing γ}
    (stops : Halts reading halt (first session)) :
    Halts reading halt ((first >>= next) session) := by
  rw [bind_apply]
  generalize first session = outcome at stops
  obtain ⟨answer, later⟩ := outcome
  obtain ⟨stopped, sound⟩ := stops
  cases stopped
  exact ⟨rfl, sound⟩

theorem HaltsBehind.bind {first : Parsing α} {next : α → Parsing γ}
    (stops : HaltsBehind reading (first session)) :
    HaltsBehind reading ((first >>= next) session) := by
  obtain ⟨error, failed, halts⟩ := stops
  exact ⟨error, failed, halts.bind⟩

theorem GoesOn.bind {first : Parsing α} {next : α → Parsing γ} {value : α} {before : Session}
    {after : Scopes} (goesOn : GoesOn reading before value after rest (first session)) :
    (first >>= next) session = next value (first session).2 := by
  have found := goesOn.value
  rw [bind_apply]
  generalize first session = outcome at found
  obtain ⟨answer, later⟩ := outcome
  cases found
  rfl

theorem Halts.returnTo {halt : Halt} {outcome : Except Halt α × Session} (active : List Call)
    (stops : Halts reading halt outcome) : Halts reading halt (returnTo active outcome) := by
  rcases outcome with ⟨_ | _, later⟩
  · exact stops
  · cases stops.1

namespace Agrees

variable {before later : Session} {out : β → α × Scopes} {outcome : Except Halt α × Session}

/-- What has come before is all the same. -/
theorem earlier {result : Except Failure (β × List Token)}
    (agrees : Agrees reading later out result outcome) (active : later.active = before.active)
    (place : before.place ≤ later.place) : Agrees reading before out result outcome := by
  match result with
  | .ok (value, []) => exact agrees
  | .ok (value, token :: rest) =>
      obtain ⟨found, stands, scopes, same, onward⟩ := agrees
      exact ⟨found, stands, scopes, same.trans active, Nat.le_trans place onward⟩
  | .error .brokenOff => exact agrees
  | .error (.unexpected fault unread) => exact agrees

/-- A routine has returned to those that had been active before. -/
theorem returned {routine : Routine} {result : Except Failure (β × List Token)}
    (agrees : Agrees reading (before.call routine) out result outcome) :
    Agrees reading before out result (returnTo before.active outcome) := by
  match result with
  | .ok (value, []) =>
      obtain ⟨error, failed, stops⟩ := agrees
      exact ⟨error, failed, stops.returnTo _⟩
  | .ok (value, token :: rest) =>
      obtain ⟨found, stands, scopes, -, onward⟩ := agrees
      obtain ⟨answer, later⟩ := outcome
      cases found
      exact ⟨rfl, stands.leave before.active, scopes, rfl, onward⟩
  | .error .brokenOff =>
      obtain ⟨error, failed, stops⟩ := agrees
      exact ⟨error, failed, stops.returnTo _⟩
  | .error (.unexpected fault unread) => exact Halts.returnTo _ agrees

theorem of_pending {reader : Reader β} (pending : Pending reader [])
    (stops : HaltsBehind reading outcome) :
    Agrees reading before out (reader []) outcome := by
  rcases pending with broken | ⟨value, read⟩
  · rw [broken]
    exact stops
  · rw [read]
    exact stops

end Agrees

theorem take_andThen {first : Reader α} {next : α → Reader β} :
    take (first.andThen next) = (take first).andThen next := by
  funext tokens
  cases tokens <;> rfl

theorem expect_here_reader {wanted : Kind} {reader : Reader α} (same : token.kind = wanted) :
    ((ofBounded (Grammar.expect wanted)).andThen fun _ => reader) (token :: rest) =
      take reader (token :: rest) := by
  rw [expect_reader, Reader.andThen, Reader.peek, if_pos same]
  rfl

namespace Follows

variable {out : β → α × Scopes} {last : δ → γ × Scopes} {run : Parsing α} {reader : Reader β}

theorem nil : Follows reading rank out run reader scopes [] := by
  intro session stands
  obtain ⟨_, none⟩ := stands.head
  cases none

theorem mono (le : rank ≤ limit) (follows : Follows reading limit out run reader scopes unread) :
    Follows reading rank out run reader scopes unread :=
  fun session stands same under => follows session stands same (under.mono le)

/-- Any routine may be called where a token has just been consumed. -/
theorem anywhere (follows : Follows reading limit out run reader scopes unread) :
    Follows reading 0 out run reader scopes unread :=
  follows.mono (Nat.zero_le _)

theorem pure {value : β} {found : α} (same : out value = (found, scopes)) :
    Follows reading rank out (pure found) (pass value) scopes unread := by
  intro session stands sameScopes under
  obtain ⟨rest, rfl⟩ := stands.head
  rw [Reader.pass, Agrees, same]
  exact ⟨rfl, stands, sameScopes, rfl, Nat.le_refl _⟩

theorem fail {fault : SyntaxFault} :
    Follows reading rank out (fail fault) (refuse fault) scopes unread :=
  fun _ stands _ _ => fail_halts stands

theorem look {next : Token → Parsing α}
    (follows : Follows reading rank out (next token) reader scopes (token :: rest)) :
    Follows reading rank out (look >>= next) reader scopes (token :: rest) := by
  intro session stands same under
  obtain rfl := stands.look_eq
  exact follows session stands same under

theorem peek {next : Token → Parsing α} {reads : Token → Reader β}
    (follows : ∀ token rest, unread = token :: rest →
      Follows reading rank out (next token) (reads token) scopes (token :: rest)) :
    Follows reading rank out (Descent.look >>= next) (peek reads) scopes unread := by
  cases unread with
  | nil => exact nil
  | cons token rest =>
      have here : Follows reading rank out (next token) (Reader.peek reads) scopes
          (token :: rest) := follows token rest rfl
      exact here.look

theorem place {next : Nat → Parsing α}
    (follows : ∀ start, start + unread.length = reading.tokens.length →
      Follows reading rank out (next start) reader scopes unread) :
    Follows reading rank out (place >>= next) reader scopes unread :=
  fun session stands => follows session.place stands.count session stands

theorem currentScopes {next : Scopes → Parsing α}
    (follows : Follows reading rank out (next scopes) reader scopes unread) :
    Follows reading rank out (currentScopes >>= next) reader scopes unread := by
  intro session stands same
  rw [← same] at follows
  exact follows session stands rfl

theorem advance {next : Token → Parsing α} (inside : token.kind ≠ .eof)
    (ends : Pending reader []) (follows : Follows reading 0 out (next token) reader scopes rest) :
    Follows reading rank out (advance >>= next) (take reader) scopes (token :: rest) := by
  intro session stands same under
  change Agrees reading session out (reader rest) _
  rcases advance_step stands inside with ⟨rfl, stops⟩ | ⟨goesOn, moved⟩
  · -- The reader goes on without tokens, and notices as soon as it needs one.
    exact .of_pending ends stops.bind
  · rw [goesOn.bind]
    exact (follows _ goesOn.stands (goesOn.scopes.trans same)
      (under.consumed goesOn.active moved)).earlier goesOn.active goesOn.onward

theorem bind {first : Parsing α} {next : α → Parsing γ} {onward : β → Reader δ}
    (begins : Follows reading rank out first reader scopes unread)
    (ends : ∀ value, reader unread = .ok (value, []) → Pending (onward value) [])
    (follows : ∀ value rest, reader unread = .ok (value, rest) →
      Follows reading rank last (next (out value).1) (onward value) (out value).2 rest) :
    Follows reading rank last (first >>= next) (reader.andThen onward) scopes unread := by
  intro session stands same under
  have agrees := begins session stands same under
  rw [Reader.andThen]
  -- The reader refuses a token, breaks off, leaves no token or leaves some.
  rcases read : reader unread with (⟨fault, after⟩ | _) | ⟨value, _ | ⟨token, rest⟩⟩
  all_goals rw [read] at agrees
  · have stops : Halts reading _ (first session) := agrees
    exact stops.bind
  · have stops : HaltsBehind reading (first session) := agrees
    exact stops.bind
  · have stops : HaltsBehind reading (first session) := agrees
    exact .of_pending (ends value read) stops.bind
  · have goesOn : GoesOn reading session (out value).1 (out value).2 (token :: rest)
      (first session) := agrees
    dsimp only
    rw [goesOn.bind]
    exact (follows value _ read _ goesOn.stands goesOn.scopes
      (under.onward goesOn.active goesOn.onward)).earlier goesOn.active goesOn.onward

theorem map {first : Parsing α} {convert : α → γ} {function : β → δ}
    (begins : Follows reading rank out first reader scopes unread)
    (same : ∀ value, last (function value) = (convert (out value).1, (out value).2)) :
    Follows reading rank last (first >>= fun value => Pure.pure (convert value))
      (reader.map function) scopes unread :=
  begins.bind (fun _ _ => .inr ⟨_, rfl⟩) fun value _ _ => pure (same value)

/-- A routine may be called while others of a lower rank are active. -/
theorem within {routine : Routine}
    (follows : Follows reading (routine.rank + 1) out run reader scopes unread) :
    Follows reading routine.rank out (within routine run) reader scopes unread := by
  intro session stands same under
  have consumes : (Event.called session.active ⟨routine, session.place⟩).Consumes := by
    intro outer member again
    rcases under outer member with earlier | ⟨-, lower⟩
    · exact earlier
    · -- At this very place only routines of lower ranks are active, so not the same one.
      rw [again] at lower
      exact (Nat.lt_irrefl _ lower).elim
  have called : (session.call routine).At reading unread := stands.record _ consumes
  have calledUnder : (session.call routine).Under (routine.rank + 1) := by
    intro call member
    rcases List.mem_cons.mp member with rfl | outer
    · exact .inr ⟨rfl, Nat.lt_succ_self _⟩
    · exact under.mono (Nat.le_succ _) call outer
  exact (follows _ called same calledUnder).returned

theorem passed {loop : Loop} {next : Unit → Parsing α} {start longer : Nat}
    (begun : start + longer = reading.tokens.length) (shorter : unread.length < longer)
    (follows : Follows reading rank out (next ()) reader scopes unread) :
    Follows reading rank out (passed loop start >>= next) reader scopes unread := by
  intro session stands same under
  have count := stands.count
  have consumes : (Event.passed loop start session.place).Consumes := by
    change start < session.place
    omega
  have passed := follows _ (stands.record session.active consumes) same under
  exact passed.earlier rfl (Nat.le_refl _)

theorem consume {kind : Kind} {next : Bool → Parsing α} {other : Reader β} (inside : kind ≠ .eof)
    (ends : Pending reader [])
    (here : ∀ token rest, unread = token :: rest → token.kind = kind →
      Follows reading 0 out (next true) reader scopes rest)
    (there : Follows reading rank out (next false) other scopes unread) :
    Follows reading rank out (consume kind >>= next)
      (Reader.peek fun token => if token.kind = kind then take reader else other) scopes
      unread := by
  rw [Descent.consume, bind_assoc]
  refine .peek fun token rest whole => ?_
  by_cases same : token.kind = kind
  · rw [if_pos same, if_pos same, bind_assoc]
    exact .advance (same ▸ inside) ends (here token rest whole same)
  · rw [if_neg same, if_neg same]
    exact whole ▸ there

/-- A reader that converts its value, which only the reader is to see. -/
theorem convert {function : β → δ} {other : δ → α × Scopes}
    (follows : Follows reading rank out run reader scopes unread)
    (same : ∀ value, other (function value) = out value) :
    Follows reading rank other run (reader.map function) scopes unread := by
  rw [← bind_pure run]
  exact .map follows same

theorem congr {other : Reader β} (same : other unread = reader unread)
    (follows : Follows reading rank out run reader scopes unread) :
    Follows reading rank out run other scopes unread := by
  intro session stands sameScopes under
  rw [same]
  exact follows session stands sameScopes under

theorem expect_here {wanted : Kind} {next : Token → Parsing α} (same : token.kind = wanted)
    (inside : wanted ≠ .eof) (ends : Pending reader [])
    (follows : Follows reading 0 out (next token) reader scopes rest) :
    Follows reading rank out (expect wanted >>= next) (take reader) scopes (token :: rest) := by
  rw [expect, bind_assoc]
  refine .look ?_
  rw [if_pos same]
  exact .advance (same ▸ inside) ends follows

theorem expect {wanted : Kind} {next : Token → Parsing α} (inside : wanted ≠ .eof)
    (ends : Pending reader [])
    (follows : ∀ token rest, unread = token :: rest → token.kind = wanted →
      Follows reading 0 out (next token) reader scopes rest) :
    Follows reading rank out (expect wanted >>= next)
      ((ofBounded (Grammar.expect wanted)).andThen fun _ => reader) scopes unread := by
  cases unread with
  | nil => exact nil
  | cons token rest =>
      by_cases same : token.kind = wanted
      · exact congr (expect_here_reader same)
          (.expect_here same inside ends (follows token rest rfl same))
      · have refused : Follows reading rank out (Descent.expect wanted >>= next)
            (refuse (.mismatch wanted token.kind)) scopes (token :: rest) := by
          rw [Descent.expect, bind_assoc]
          refine .look ?_
          rw [if_neg same]
          exact .fail
        refine congr ?_ refused
        rw [expect_reader, Reader.andThen, Reader.peek, if_neg same]
        rfl

/-- The last token of a phrase. -/
theorem expect_last {wanted : Kind} {value : β} {found : α} (inside : wanted ≠ .eof)
    (same : out value = (found, scopes)) :
    Follows reading rank out (Descent.expect wanted >>= fun _ => Pure.pure found)
      ((ofBounded (Grammar.expect wanted)).map fun _ => value) scopes unread :=
  .expect inside (.inr ⟨_, rfl⟩) fun _ _ _ _ => .pure same

theorem identifier {name : String} {next : Ident → Parsing α} (kind : token.kind = .ident name)
    (ends : Pending reader [])
    (follows : Follows reading 0 out (next ⟨name, token.line⟩) reader scopes rest) :
    Follows reading rank out (identifier >>= next) (take reader) scopes (token :: rest) := by
  have inside : token.kind ≠ .eof := by simp [kind]
  rw [Descent.identifier, bind_assoc]
  refine .look ?_
  rw [kind]
  dsimp only
  rw [bind_assoc]
  refine .advance inside ends ?_
  exact follows

theorem declare {scope : Nat} {declaration : Declaration} {next : Unit → Parsing α}
    (follows : Follows reading rank out (next ()) reader (scopes.declare scope declaration)
      unread) :
    Follows reading rank out (declare scope declaration >>= next) reader scopes unread := by
  intro session stands same under
  have declared : ({ session with scopes := session.scopes.declare scope declaration } :
      Session).At reading unread :=
    ⟨stands.tokens, stands.here, stands.ahead, stands.results, stands.inside, stands.events⟩
  have agrees := follows _ declared (congrArg (·.declare scope declaration) same) under
  exact agrees.earlier rfl (Nat.le_refl _)

theorem pushScope {parent : Option Nat} {next : Nat → Parsing α}
    (follows : Follows reading rank out (next scopes.count) reader (scopes.push parent) unread) :
    Follows reading rank out (pushScope parent >>= next) reader scopes unread := by
  intro session stands same under
  have pushed : ({ session with scopes := session.scopes.push parent } : Session).At reading
      unread :=
    ⟨stands.tokens, stands.here, stands.ahead, stands.results, stands.inside, stands.events⟩
  subst same
  have agrees := follows _ pushed rfl under
  exact agrees.earlier rfl (Nat.le_refl _)

end Follows

end Descent

end ThreeAddress
