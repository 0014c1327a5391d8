import ThreeAddress.Proofs.Accepted
import ThreeAddress.Proofs.Lowering.Agreement

namespace ThreeAddress

/-!
# The code of a program does what the program does

The code of a statement, started in a memory that agrees with a store, comes to
where the statement's execution in that store says: to its end, to the label
behind the innermost loop after a break, or through at least as many steps as a
loop was given rounds. The last makes termination carry over in both directions.
-/

open Lowering Machine

/-- What running code comes to, for an outcome of the source program: to `finish` in an
agreeing memory, to the label of `exit?` after a break, or through `bound` steps. -/
def Lands (meaning : Interpretation Value) (scopes : Scopes) (code : List Instr) (finish : Nat)
    (exit? : Option Label) (bound : Nat) (start : Config Place Value) : Outcome Value → Prop
  | .done store => ∃ steps memory,
      run meaning id code steps start = some ⟨finish, memory⟩ ∧ Agrees scopes store memory
  | .broken store => ∃ behind leave steps memory,
      exit? = some behind ∧ position? code behind = some leave ∧
        run meaning id code steps start = some ⟨leave, memory⟩ ∧ Agrees scopes store memory
  | .astray => True
  | .unfinished => ∃ steps reached,
      bound ≤ steps ∧ run meaning id code steps start = some reached

section

variable {Value : Type} {meaning : Interpretation Value} {scopes : Scopes} {code : List Instr}
  {finish middle : Nat} {exit? : Option Label} {bound steps : Nat}
  {start reached : Config Place Value} {outcome : Outcome Value} {store : Store Value}
  {memory : Place → Value}

theorem Lands.after (front : run meaning id code steps start = some reached)
    (lands : Lands meaning scopes code finish exit? bound reached outcome) :
    Lands meaning scopes code finish exit? (bound + steps) start outcome := by
  cases outcome with
  | done store =>
      obtain ⟨more, memory, back, agrees⟩ := lands
      exact ⟨_, memory, run_trans front back, agrees⟩
  | broken store =>
      obtain ⟨behind, leave, more, memory, exit, found, back, agrees⟩ := lands
      exact ⟨behind, leave, _, memory, exit, found, run_trans front back, agrees⟩
  | astray => trivial
  | unfinished =>
      obtain ⟨more, last, enough, back⟩ := lands
      exact ⟨_, last, by omega, run_trans front back⟩

theorem Lands.weaken {less : Nat} (fewer : less ≤ bound)
    (lands : Lands meaning scopes code finish exit? bound start outcome) :
    Lands meaning scopes code finish exit? less start outcome := by
  cases outcome with
  | unfinished =>
      obtain ⟨more, last, enough, back⟩ := lands
      exact ⟨more, last, Nat.le_trans fewer enough, back⟩
  | _ => exact lands

theorem Lands.prepend (front : run meaning id code steps start = some reached)
    (lands : Lands meaning scopes code finish exit? bound reached outcome) :
    Lands meaning scopes code finish exit? bound start outcome :=
  (lands.after front).weaken (Nat.le_add_right _ _)

theorem Lands.andThen {next : Store Value → Outcome Value}
    (first : Lands meaning scopes code middle exit? bound start outcome)
    (second : ∀ store memory, Agrees scopes store memory →
      Lands meaning scopes code finish exit? bound ⟨middle, memory⟩ (next store)) :
    Lands meaning scopes code finish exit? bound start (outcome.andThen next) := by
  cases outcome with
  | done store =>
      obtain ⟨steps, memory, front, agrees⟩ := first
      exact (second store memory agrees).prepend front
  | _ => exact first

/-- The end of a statement may be reached from the end of its last part. -/
theorem Lands.onward (first : Lands meaning scopes code middle exit? bound start outcome)
    (second : ∀ memory, ∃ steps,
      run meaning id code steps ⟨middle, memory⟩ = some ⟨finish, memory⟩) :
    Lands meaning scopes code finish exit? bound start outcome := by
  cases outcome with
  | done store =>
      obtain ⟨steps, memory, front, agrees⟩ := first
      obtain ⟨more, back⟩ := second memory
      exact ⟨_, memory, run_trans front back, agrees⟩
  | _ => exact first

/-- After the body of a loop comes the next round, and after a break what is behind the
loop. -/
theorem Lands.andAgain {next : Store Value → Outcome Value} {behind : Label} {leave : Nat}
    {outer? : Option Label}
    (body : Lands meaning scopes code middle (some behind) bound start outcome)
    (found : position? code behind = some leave)
    (again : ∀ store memory, Agrees scopes store memory →
      Lands meaning scopes code finish outer? bound ⟨middle, memory⟩ (next store))
    (leaves : ∀ memory, ∃ steps,
      run meaning id code steps ⟨leave, memory⟩ = some ⟨finish, memory⟩) :
    Lands meaning scopes code finish outer? bound start (outcome.andAgain next) := by
  cases outcome with
  | done store =>
      obtain ⟨steps, memory, front, agrees⟩ := body
      exact (again store memory agrees).prepend front
  | broken store =>
      obtain ⟨_, _, steps, memory, exit, alsoFound, front, agrees⟩ := body
      cases exit
      cases found.symm.trans alsoFound
      obtain ⟨more, back⟩ := leaves memory
      exact ⟨_, memory, run_trans front back, agrees⟩
  | astray => trivial
  | unfinished => exact body

end

section

variable {Value : Type} {meaning : Interpretation Value} {scopes : Scopes} {code : List Instr}
  {scope start : Nat} {exit? : Option Label} {bound : Nat} {before after : NameSupply}
  {store : Store Value} {memory : Place → Value} {segment : List Instr}

theorem assign_lands {target value : Expr} {line : Nat} {inLoop : Bool}
    (distinct : scopes.NamesDistinct)
    (resolved : (Stmt.assign target value line).Resolved scopes inLoop scope)
    (given : ((Stmt.assign target value line).lower scopes scope exit?).Gives before segment after)
    (placed : CodeAt code start segment) (agrees : Agrees scopes store memory) :
    Lands meaning scopes code (start + segment.length) exit? bound ⟨start, memory⟩
      (Stmt.execAssign meaning scopes scope target value store) := by
  unfold Stmt.execAssign
  dsimp only
  split
  · next cell result found evaluated =>
      obtain ⟨place, aimed, targeted⟩ := Option.bind_eq_some_iff.mp found
      obtain ⟨name, numbers, declared, low, final, rfl, typed, keeps, passes⟩ :=
        assign_passes resolved given agrees.mirrors aimed evaluated
      obtain ⟨steps, ran⟩ := passes code start placed
      exact ⟨steps, _, ran,
        (agrees.keep keeps).update distinct (Scopes.lays_of_cell targeted typed) result⟩
  · trivial

/-- The code of a condition comes to a test that has the truth value of the condition. -/
theorem test_runs {condition test : Expr} {holds : Bool}
    (resolved : condition.Resolved (scopes.typeOf? scope))
    (given : (condition.reduce (scopes.typeOf? scope) false).Gives before (segment, test) after)
    (placed : CodeAt code start segment) (agrees : Agrees scopes store memory)
    (tested : Stmt.test meaning scopes scope condition store = some holds) :
    ∃ steps final value,
      run meaning id code steps ⟨start, memory⟩ = some ⟨start + segment.length, final⟩ ∧
      Agrees scopes store final ∧ test.eval meaning (loadFrom id final) = some value ∧
      meaning.holds value = holds := by
  obtain ⟨value, evaluated, same⟩ := Option.map_eq_some_iff.mp tested
  obtain ⟨final, passes, keeps, settled⟩ :=
    reduce_computes condition resolved agrees.mirrors evaluated given
  obtain ⟨steps, ran⟩ := passes code start placed
  exact ⟨steps, final, value, ran, agrees.keep keeps, settled.now, same⟩

/-- After a condition and a jump past the first branch comes the branch that is taken. -/
theorem branch_lands {condition test : Expr} {yes no : Outcome Value} {behind : Label}
    {elseStart finish : Nat} {rest : List Instr}
    (resolved : condition.Resolved (scopes.typeOf? scope))
    (given : (condition.reduce (scopes.typeOf? scope) false).Gives before (segment, test) after)
    (placed : CodeAt code start (segment ++ .ifFalse test behind :: rest))
    (found : position? code behind = some elseStart) (agrees : Agrees scopes store memory)
    (yesLands : ∀ memory, Agrees scopes store memory →
      Lands meaning scopes code finish exit? bound ⟨start + segment.length + 1, memory⟩ yes)
    (noLands : ∀ memory, Agrees scopes store memory →
      Lands meaning scopes code finish exit? bound ⟨elseStart, memory⟩ no) :
    Lands meaning scopes code finish exit? bound ⟨start, memory⟩
      (.branch (Stmt.test meaning scopes scope condition store) yes no) := by
  cases tested : Stmt.test meaning scopes scope condition store with
  | none => trivial
  | some holds =>
      obtain ⟨steps, final, value, front, agrees, evaluated, same⟩ :=
        test_runs resolved given placed.left agrees tested
      have jumped := run_trans front (run_ifFalse placed.right found evaluated)
      rw [same] at jumped
      cases holds with
      | true => exact (yesLands final agrees).prepend jumped
      | false => exact (noLands final agrees).prepend jumped

end

section

variable {Value : Type} {meaning : Interpretation Value} {scopes : Scopes} {code : List Instr}
  {scope start leave rounds : Nat} {exit? : Option Label} {before after : NameSupply}
  {condition : Expr} {body : Store Value → Outcome Value} {testCode bodyCode : List Instr}
  {first behind : Label}

/-- The test at the head of a loop goes on into the body or leaves the loop. -/
theorem loopTest_lands {bound finish : Nat} {yes no : Outcome Value} {store : Store Value}
    {memory : Place → Value} {rest : List Instr}
    (resolved : condition.Resolved (scopes.typeOf? scope))
    (tested : Stmt.LoopTest (scopes.typeOf? scope) condition behind before testCode after)
    (placed : CodeAt code start (testCode ++ rest)) (found : position? code behind = some leave)
    (agrees : Agrees scopes store memory)
    (yesLands : ∀ memory, Agrees scopes store memory →
      Lands meaning scopes code finish exit? bound ⟨start + testCode.length, memory⟩ yes)
    (noLands : ∀ memory, Agrees scopes store memory →
      Lands meaning scopes code finish exit? bound ⟨leave, memory⟩ no) :
    Lands meaning scopes code finish exit? bound ⟨start, memory⟩
      (.branch (Stmt.test meaning scopes scope condition store) yes no) := by
  unfold Stmt.LoopTest at tested
  split at tested
  · next always =>
      obtain ⟨rfl, rfl⟩ := tested
      match condition, always with
      | .bool note true, _ =>
          have holds : Stmt.test meaning scopes scope (.bool note true) store = some true := by
            simp [Stmt.test, Expr.eval, meaning.holds_true]
          rw [holds]
          exact yesLands memory agrees
  · obtain ⟨conditionCode, test, given, rfl⟩ := tested
    have headPlaced : CodeAt code start (conditionCode ++ .ifFalse test behind :: rest) := by
      simpa using placed
    refine branch_lands resolved given headPlaced found agrees ?_ noLands
    simpa [Nat.add_assoc] using yesLands

/-- Every round of a loop takes at least the step over its label. -/
theorem while_lands (distinct : (labels code).Nodup)
    (resolved : condition.Resolved (scopes.typeOf? scope))
    (tested : Stmt.LoopTest (scopes.typeOf? scope) condition behind before testCode after)
    (placed : CodeAt code start ([.label first] ++ testCode ++ bodyCode ++
      [.goto first, .label behind]))
    (bodyLands : ∀ store memory, Agrees scopes store memory →
      Lands meaning scopes code (start + 1 + testCode.length + bodyCode.length) (some behind)
        rounds ⟨start + 1 + testCode.length, memory⟩ (body store))
    (fewer : count ≤ rounds) (store : Store Value) (memory : Place → Value)
    (agrees : Agrees scopes store memory) :
    Lands meaning scopes code (start + 1 + testCode.length + bodyCode.length + 2) exit? count
      ⟨start, memory⟩
      (whileRounds (Stmt.test meaning scopes scope condition) body count store) := by
  -- One round is the label, the test and the body; the jump back starts one with fewer left.
  induction count generalizing store memory with
  | zero => exact ⟨0, _, Nat.le_refl _, rfl⟩
  | succ count ih =>
      have head : CodeAt code start (.label first :: (testCode ++ (bodyCode ++
        [.goto first, .label behind]))) := by simpa using placed
      have backPlaced : CodeAt code (start + 1 + testCode.length + bodyCode.length)
          [.goto first, .label behind] := head.tail.right.right
      have firstAt := head.position distinct
      have behindAt := backPlaced.tail.position distinct
      have leaves : ∀ memory, ∃ steps, run meaning id code steps
          ⟨start + 1 + testCode.length + bodyCode.length + 1, memory⟩ =
          some ⟨start + 1 + testCode.length + bodyCode.length + 2, memory⟩ :=
        fun memory => ⟨1, run_label backPlaced.tail⟩
      refine Lands.after (run_label head) ?_
      refine loopTest_lands resolved tested head.tail behindAt agrees ?_ ?_
      · intro memory agrees
        have bodyLands := (bodyLands store memory agrees).weaken (show count ≤ rounds by omega)
        refine bodyLands.andAgain behindAt ?_ leaves
        intro store memory agrees
        exact (ih (by omega) store memory agrees).prepend (run_goto backPlaced firstAt)
      · intro memory agrees
        obtain ⟨steps, ran⟩ := leaves memory
        exact ⟨steps, memory, ran, agrees⟩

theorem doWhile_lands {test : Expr} (distinct : (labels code).Nodup)
    (resolved : condition.Resolved (scopes.typeOf? scope))
    (given : (condition.reduce (scopes.typeOf? scope) false).Gives before (testCode, test) after)
    (placed : CodeAt code start ([.label first] ++ bodyCode ++ testCode ++
      [.ifTrue test first, .label behind]))
    (bodyLands : ∀ store memory, Agrees scopes store memory →
      Lands meaning scopes code (start + 1 + bodyCode.length) (some behind)
        rounds ⟨start + 1, memory⟩ (body store))
    (fewer : count ≤ rounds) (store : Store Value) (memory : Place → Value)
    (agrees : Agrees scopes store memory) :
    Lands meaning scopes code (start + 1 + bodyCode.length + testCode.length + 2) exit? count
      ⟨start, memory⟩
      (doRounds body (Stmt.test meaning scopes scope condition) count store) := by
  induction count generalizing store memory with
  | zero => exact ⟨0, _, Nat.le_refl _, rfl⟩
  | succ count ih =>
      have head : CodeAt code start (.label first :: (bodyCode ++ (testCode ++
        [.ifTrue test first, .label behind]))) := by simpa using placed
      have lastPlaced : CodeAt code (start + 1 + bodyCode.length + testCode.length)
          [.ifTrue test first, .label behind] := head.tail.right.right
      have firstAt := head.position distinct
      have behindAt := lastPlaced.tail.position distinct
      have leaves : ∀ memory, ∃ steps, run meaning id code steps
          ⟨start + 1 + bodyCode.length + testCode.length + 1, memory⟩ =
          some ⟨start + 1 + bodyCode.length + testCode.length + 2, memory⟩ :=
        fun memory => ⟨1, run_label lastPlaced.tail⟩
      refine Lands.after (run_label head) ?_
      have bodyLands := (bodyLands store memory agrees).weaken (show count ≤ rounds by omega)
      refine bodyLands.andAgain behindAt ?_ leaves
      intro store memory agrees
      cases tested : Stmt.test meaning scopes scope condition store with
      | none => trivial
      | some holds =>
          obtain ⟨steps, final, value, front, agrees, evaluated, same⟩ :=
            test_runs resolved given head.tail.right.left agrees tested
          have jumped := run_trans front (run_ifTrue lastPlaced firstAt evaluated)
          rw [same] at jumped
          cases holds with
          | true => exact (ih (by omega) store final agrees).prepend jumped
          | false =>
              obtain ⟨more, left⟩ := leaves final
              exact ⟨_, final, run_trans jumped left, agrees⟩

end

section

variable {Value : Type} {meaning : Interpretation Value} {scopes : Scopes} {code : List Instr}

mutual

theorem lower_lands (rounds : Nat) (stmt : Stmt) {inLoop : Bool} {scope start : Nat}
    {exit? : Option Label} {before after : NameSupply} {segment : List Instr} {store : Store Value}
    {memory : Place → Value} (namesDistinct : scopes.NamesDistinct)
    (labelsDistinct : (labels code).Nodup) (resolved : stmt.Resolved scopes inLoop scope)
    (given : (stmt.lower scopes scope exit?).Gives before segment after)
    (placed : CodeAt code start segment)
    (exits : ∀ behind, exit? = some behind → ∃ leave, position? code behind = some leave)
    (agrees : Agrees scopes store memory) :
    Lands meaning scopes code (start + segment.length) exit? rounds ⟨start, memory⟩
      (stmt.exec meaning scopes rounds scope store) := by
  match stmt with
  | .assign target value line =>
      rw [Stmt.exec]
      exact assign_lands namesDistinct resolved given placed agrees
  | .ifThen condition body =>
      obtain ⟨testCode, test, afterTest, bodyCode, tested, bodyGiven, split⟩ :=
        Stmt.lower_ifThen_gives.mp given
      have head : CodeAt code start (testCode ++ (.ifFalse test afterTest.nextLabel ::
        (bodyCode ++ [.label afterTest.nextLabel]))) := by
        simpa [split] using placed
      have last := head.right.tail.right
      have finish : start + segment.length =
          start + testCode.length + 1 + bodyCode.length + 1 := by
        simp only [split, List.length_append, List.length_cons, List.length_nil]
        omega
      rw [finish, Stmt.exec]
      refine branch_lands resolved.1 tested head (last.position labelsDistinct) agrees ?_ ?_
      · intro memory agrees
        have bodyLands := lower_lands rounds body namesDistinct labelsDistinct resolved.2 bodyGiven
          head.right.tail.left exits agrees
        exact bodyLands.onward fun memory => ⟨1, run_label last⟩
      · intro memory agrees
        exact ⟨1, memory, run_label last, agrees⟩
  | .ifThenElse condition body otherwise =>
      obtain ⟨testCode, test, afterTest, bodyCode, afterBody, elseCode, tested, bodyGiven,
        elseGiven, split⟩ := Stmt.lower_ifThenElse_gives.mp given
      have head : CodeAt code start (testCode ++ (.ifFalse test afterTest.nextLabel ::
        (bodyCode ++ (.goto afterBody.nextLabel :: .label afterTest.nextLabel ::
          (elseCode ++ [.label afterBody.nextLabel]))))) := by
        simpa [split] using placed
      have joint := head.right.tail.right
      have last := joint.tail.tail.right
      have finish : start + segment.length =
          start + testCode.length + 1 + bodyCode.length + 1 + 1 + elseCode.length + 1 := by
        simp only [split, List.length_append, List.length_cons, List.length_nil]
        omega
      rw [finish, Stmt.exec]
      refine branch_lands resolved.1 tested head (joint.tail.position labelsDistinct) agrees ?_ ?_
      · intro memory agrees
        have bodyLands := lower_lands rounds body namesDistinct labelsDistinct resolved.2.1
          bodyGiven head.right.tail.left exits agrees
        refine bodyLands.onward fun memory => ⟨1 + 1, ?_⟩
        exact run_trans (run_goto joint (last.position labelsDistinct)) (run_label last)
      · intro memory agrees
        refine Lands.prepend (run_label joint.tail) ?_
        have elseLands := lower_lands rounds otherwise namesDistinct labelsDistinct resolved.2.2
          elseGiven joint.tail.tail.left exits agrees
        exact elseLands.onward fun memory => ⟨1, run_label last⟩
  | .whileDo condition body =>
      obtain ⟨testCode, afterTest, bodyCode, tested, bodyGiven, split⟩ :=
        Stmt.lower_whileDo_gives.mp given
      have head : CodeAt code start (.label before.nextLabel :: (testCode ++ (bodyCode ++
        [.goto before.nextLabel, .label before.afterLabel.nextLabel]))) := by
        simpa [split] using placed
      have finish : start + segment.length =
          start + 1 + testCode.length + bodyCode.length + 2 := by
        simp only [split, List.length_append, List.length_cons, List.length_nil]
        omega
      have behindAt := head.tail.right.right.tail.position labelsDistinct
      rw [finish, Stmt.exec]
      refine while_lands labelsDistinct resolved.1 tested (split ▸ placed) ?_ (Nat.le_refl _) store
        memory agrees
      intro store memory agrees
      -- Inside of the body a break means this loop, whatever loop is around it.
      exact lower_lands rounds body namesDistinct labelsDistinct resolved.2 bodyGiven
        head.tail.right.left (fun _ same => ⟨_, Option.some.inj same ▸ behindAt⟩) agrees
  | .doWhile body condition =>
      obtain ⟨bodyCode, afterBody, testCode, test, bodyGiven, tested, split⟩ :=
        Stmt.lower_doWhile_gives.mp given
      have head : CodeAt code start (.label before.nextLabel :: (bodyCode ++ (testCode ++
        [.ifTrue test before.nextLabel, .label before.afterLabel.nextLabel]))) := by
        simpa [split] using placed
      have finish : start + segment.length =
          start + 1 + bodyCode.length + testCode.length + 2 := by
        simp only [split, List.length_append, List.length_cons, List.length_nil]
        omega
      have behindAt := head.tail.right.right.tail.position labelsDistinct
      rw [finish, Stmt.exec]
      refine doWhile_lands labelsDistinct resolved.2 tested (split ▸ placed) ?_ (Nat.le_refl _)
        store memory agrees
      intro store memory agrees
      exact lower_lands rounds body namesDistinct labelsDistinct resolved.1 bodyGiven
        head.tail.left (fun _ same => ⟨_, Option.some.inj same ▸ behindAt⟩) agrees
  | .breakLoop =>
      obtain ⟨behind, rfl, rfl, rfl⟩ := Stmt.lower_breakLoop_gives.mp given
      obtain ⟨leave, found⟩ := exits behind rfl
      rw [Stmt.exec]
      exact ⟨behind, leave, 1, memory, rfl, found, run_goto placed found, agrees⟩
  | .block inner declarations body =>
      rw [Stmt.exec]
      exact lowerAll_lands rounds body namesDistinct labelsDistinct resolved
        (Stmt.lower_block_gives.mp given) placed exits agrees

theorem lowerAll_lands (rounds : Nat) (body : List Stmt) {inLoop : Bool} {scope start : Nat}
    {exit? : Option Label} {before after : NameSupply} {segment : List Instr}
    {store : Store Value} {memory : Place → Value} (namesDistinct : scopes.NamesDistinct)
    (labelsDistinct : (labels code).Nodup) (resolved : Stmt.AllResolved scopes inLoop scope body)
    (given : (Stmt.lowerAll scopes scope exit? body).Gives before segment after)
    (placed : CodeAt code start segment)
    (exits : ∀ behind, exit? = some behind → ∃ leave, position? code behind = some leave)
    (agrees : Agrees scopes store memory) :
    Lands meaning scopes code (start + segment.length) exit? rounds ⟨start, memory⟩
      (Stmt.execAll meaning scopes rounds scope body store) := by
  match body with
  | [] =>
      obtain ⟨rfl, rfl⟩ := Stmt.lowerAll_nil_gives.mp given
      rw [Stmt.execAll]
      exact ⟨0, memory, rfl, agrees⟩
  | first :: rest =>
      obtain ⟨firstCode, middle, restCode, firstGiven, restGiven, rfl⟩ :=
        Stmt.lowerAll_cons_gives.mp given
      rw [Stmt.execAll, List.length_append, ← Nat.add_assoc]
      have firstLands := lower_lands rounds first namesDistinct labelsDistinct resolved.1 firstGiven
        placed.left exits agrees
      refine firstLands.andThen ?_
      intro store memory agrees
      exact lowerAll_lands rounds rest namesDistinct labelsDistinct resolved.2 restGiven
        placed.right exits agrees

end

end

section

variable {Value : Type} {meaning : Interpretation Value} {program : Program} {code : List Instr}
  {filename source : String} {store : Store Value} {memory : Place → Value}

/-- What running the code of a whole program comes to. A program never ends in a break. -/
theorem program_lands (meaning : Interpretation Value)
    (accepted : Program.ofSource filename source = .ok program)
    (compiled : compile filename source = .ok code) (distinct : program.scopes.NamesDistinct)
    (agrees : Agrees program.scopes store memory) (rounds : Nat) :
    Lands meaning program.scopes code code.length none rounds ⟨0, memory⟩
      (program.exec meaning rounds store) := by
  obtain ⟨same, after, alsoAccepted, given⟩ := Program.compile_eq_ok compiled
  cases accepted.symm.trans alsoAccepted
  have resolved := (Program.ofSource_wellFormed accepted).resolved
  have labelsDistinct := (Stmt.lowerAll_takes program.block.body resolved given).labels_nodup
  have noExit : ∀ behind, (none : Option Label) = some behind →
      ∃ leave, position? code behind = some leave := by
    intro behind outside
    contradiction
  rw [← Nat.zero_add code.length]
  exact lowerAll_lands rounds program.block.body distinct labelsDistinct resolved given .whole
    noExit agrees

/-- The code of an accepted program that declares no name twice ends exactly if the program
does, and then every variable has the same value in both, whatever the operators mean and
wherever the program started within the bounds of its arrays. -/
theorem compile_preserves_meaning (meaning : Interpretation Value)
    (accepted : Program.ofSource filename source = .ok program)
    (compiled : compile filename source = .ok code) (distinct : program.scopes.NamesDistinct)
    (within : program.StaysInBounds meaning store) (agrees : Agrees program.scopes store memory) :
    ((∃ final, program.EndsIn meaning store final) ↔
      ∃ final, RunsTo meaning id code memory final) ∧
    ∀ finalStore finalMemory, program.EndsIn meaning store finalStore →
      RunsTo meaning id code memory finalMemory →
      Agrees program.scopes finalStore finalMemory := by
  have lands := program_lands meaning accepted compiled distinct agrees
  have forward : ∀ final, program.EndsIn meaning store final →
      ∃ reached, RunsTo meaning id code memory reached ∧ Agrees program.scopes final reached := by
    intro final ends
    rcases ends with ⟨rounds, ended⟩
    have landed := lands rounds
    rw [ended] at landed
    obtain ⟨steps, reached, ran, agrees⟩ := landed
    exact ⟨reached, ⟨steps, ran⟩, agrees⟩
  constructor
  · constructor
    · intro ends
      rcases ends with ⟨final, ended⟩
      obtain ⟨reached, ran, -⟩ := forward final ended
      exact ⟨reached, ran⟩
    · intro runs
      rcases runs with ⟨final, steps, ran⟩
      -- With more rounds than the run has steps, no loop can use its rounds up.
      have landed := lands (steps + 1)
      cases outcome : program.exec meaning (steps + 1) store with
      | done store => exact ⟨store, _, outcome⟩
      | broken store =>
          rw [outcome] at landed
          obtain ⟨_, _, _, _, outside, -⟩ := landed
          contradiction
      | astray => exact absurd outcome (within (steps + 1))
      | unfinished =>
          rw [outcome] at landed
          obtain ⟨more, reached, enough, longer⟩ := landed
          have bounded := run_le_of_end ran longer
          omega
  · intro finalStore finalMemory ended ran
    obtain ⟨reached, alsoRan, agrees⟩ := forward finalStore ended
    exact runsTo_unique ran alsoRan ▸ agrees

end

/-- Fills an array in a loop. -/
def fillArray : String :=
  "\x7b int i; int a[2]; do \x7b a[i] = 7; i = i + 1; \x7d while (i < 2); \x7d"

/-- The array is filled by the program and by its code. -/
theorem fillArray_preserved : ∃ program code,
    Program.ofSource "fill" fillArray = .ok program ∧ compile "fill" fillArray = .ok code ∧
    ((∃ final, program.EndsIn Interpretation.integers (fun _ => 0) final) ↔
      ∃ final, RunsTo Interpretation.integers id code (fun _ => 0) final) ∧
    ∀ finalStore finalMemory, program.EndsIn Interpretation.integers (fun _ => 0) finalStore →
      RunsTo Interpretation.integers id code (fun _ => 0) finalMemory →
      Agrees program.scopes finalStore finalMemory := by
  have accepted : ∃ program, Program.ofSource "fill" fillArray = .ok program ∧
      (∃ code after, program.lower {} = (.ok code, after)) ∧ program.scopes.NamesDistinct ∧
      program.StaysInBounds Interpretation.integers fun _ => 0 := by
    refine ⟨_, by cbv, ⟨_, _, rfl⟩, ?_, ?_⟩
    · intro name first second firstDeclaration secondDeclaration firstDeclares secondDeclares
      rcases first with _ | _ | first
      · rcases second with _ | _ | second
        · rfl
        · simp [Scopes.declared?, Scope.find?] at secondDeclares
        · simp [Scopes.declared?] at secondDeclares
      · simp [Scopes.declared?, Scope.find?] at firstDeclares
      · simp [Scopes.declared?] at firstDeclares
    · intro rounds outcome
      rcases rounds with _ | _ | rounds <;> cases outcome
  obtain ⟨program, accepted, ⟨code, after, lowered⟩, distinct, within⟩ := accepted
  have compiled := Program.compile_of_lower accepted lowered
  exact ⟨program, code, accepted, compiled, compile_preserves_meaning Interpretation.integers
    accepted compiled distinct within fun _ _ _ => rfl⟩

end ThreeAddress
