import ThreeAddress.Code.Lower

namespace ThreeAddress

/-!
# The steps of lowering

Every later proof about lowering goes through the equations of this module, one
for each construct: they say what the successful lowering of a construct is made
of, with the supply of fresh names before and after every part.
-/

variable {N : Type} [Counter N]

namespace Lowering

variable {α β : Type} {work : Lowering N α} {next : α → Lowering N β} {before after : Names N}

/-- Lowering from a supply of names succeeds, with a result and the names that are left. -/
def Gives (work : Lowering N α) (before : Names N) (result : α) (after : Names N) : Prop :=
  work.run.run before = (.ok result, after)

theorem Gives.unique {result other : α} {otherAfter : Names N}
    (given : work.Gives before result after) (again : work.Gives before other otherAfter) :
    result = other ∧ after = otherAfter := by
  have same := given.symm.trans again
  cases same
  exact ⟨rfl, rfl⟩

@[simp] theorem gives_pure {value result : α} :
    (pure value : Lowering N α).Gives before result after ↔ result = value ∧ after = before := by
  constructor
  · intro given
    cases given
    exact ⟨rfl, rfl⟩
  · intro same
    rcases same with ⟨rfl, rfl⟩
    rfl

@[simp] theorem gives_throw {fault : InternalFault} {result : α} :
    ¬ (throw fault : Lowering N α).Gives before result after := by
  intro given
  cases given

theorem run_bind : (work >>= next).run.run before =
    match work.run.run before with
    | (.ok value, middle) => (next value).run.run middle
    | (.error fault, middle) => (.error fault, middle) := by
  change (ExceptT.bind work next).run.run before = _
  simp only [ExceptT.bind, ExceptT.run_mk]
  change (ExceptT.bindCont next (work.run.run before).1).run (work.run.run before).2 = _
  rcases work.run.run before with ⟨_ | _, _⟩ <;> rfl

@[simp] theorem gives_bind {result : β} : (work >>= next).Gives before result after ↔
    ∃ value middle, work.Gives before value middle ∧ (next value).Gives middle result after := by
  unfold Gives
  rw [run_bind]
  rcases work.run.run before with ⟨fault | value, middle⟩
  · constructor
    · intro given
      cases given
    · intro parts
      rcases parts with ⟨_, _, given, _⟩
      cases given
  · constructor
    · intro given
      exact ⟨value, middle, rfl, given⟩
    · intro parts
      rcases parts with ⟨_, _, given, rest⟩
      cases given
      exact rest

@[simp] theorem gives_map {function : α → β} {result : β} :
    (function <$> work).Gives before result after ↔
      ∃ value, work.Gives before value after ∧ result = function value := by
  rw [← bind_pure_comp, gives_bind]
  constructor
  · intro parts
    rcases parts with ⟨value, middle, given, last⟩
    obtain ⟨rfl, rfl⟩ := gives_pure.mp last
    exact ⟨value, given, rfl⟩
  · intro parts
    rcases parts with ⟨value, given, rfl⟩
    exact ⟨value, after, given, gives_pure.mpr ⟨rfl, rfl⟩⟩

@[simp] theorem freshTemp_gives {number : Nat} : freshTemp.Gives before number after ↔
    number = before.nextTemp ∧ after = before.afterTemp := by
  constructor
  · intro given
    cases given
    exact ⟨rfl, rfl⟩
  · intro same
    rcases same with ⟨rfl, rfl⟩
    rfl

@[simp] theorem freshLabel_gives {label : Label} : freshLabel.Gives before label after ↔
    label = before.nextLabel ∧ after = before.afterLabel := by
  constructor
  · intro given
    cases given
    exact ⟨rfl, rfl⟩
  · intro same
    rcases same with ⟨rfl, rfl⟩
    rfl

end Lowering

namespace Expr

open Lowering

variable {typeOf? : String → Option DeclaredType} {declared : DeclaredType} {name : String}
  {note : Note} {line dimension : Nat} {single : Bool} {expr result : Expr}
  {code : List Instr} {before after : Names N}

theorem materialize_gives : expr.materialize.Gives before (code, result) after ↔
    code = [.assign (.temp expr.note before.nextTemp) expr] ∧
      result = .temp expr.note before.nextTemp ∧ after = before.afterTemp := by
  simp only [materialize, bind_pure_comp, gives_map, freshTemp_gives, Prod.mk.injEq]
  constructor
  · intro parts
    rcases parts with ⟨number, ⟨rfl, rfl⟩, rfl, rfl⟩
    exact ⟨rfl, rfl, rfl⟩
  · intro same
    rcases same with ⟨rfl, rfl, rfl⟩
    exact ⟨_, ⟨rfl, rfl⟩, rfl, rfl⟩

theorem settle_gives : (settle single expr).Gives before (code, result) after ↔
    if single then expr.materialize.Gives before (code, result) after
    else code = [] ∧ result = expr ∧ after = before := by
  cases single <;> simp [settle, and_assoc]

theorem reduce_binary_gives {op : BinaryOp} {left right : Expr} :
    ((Expr.binary note op left right).reduce typeOf? single).Gives before (code, result) after ↔
    ∃ leftCode leftResult afterLeft rightCode rightResult afterRight lastCode,
      (left.reduce typeOf? true).Gives before (leftCode, leftResult) afterLeft ∧
      (right.reduce typeOf? true).Gives afterLeft (rightCode, rightResult) afterRight ∧
      (settle single (.binary note op leftResult rightResult)).Gives afterRight
        (lastCode, result) after ∧
      code = leftCode ++ rightCode ++ lastCode := by
  simp [reduce]

theorem reduce_unary_gives {op : UnaryOp} {operand : Expr} :
    ((Expr.unary note op operand).reduce typeOf? single).Gives before (code, result) after ↔
    ∃ reduced, (operand.reduce typeOf? single).Gives before (code, reduced) after ∧
      result = .unary note op reduced := by
  simp only [reduce, bind_pure_comp, gives_map, Prod.exists, Prod.mk.injEq]
  constructor
  · intro parts
    rcases parts with ⟨_, reduced, given, rfl, same⟩
    exact ⟨reduced, given, same⟩
  · intro parts
    rcases parts with ⟨reduced, given, same⟩
    exact ⟨_, reduced, given, rfl, same⟩

theorem reduce_paren_gives {inner : Expr} :
    ((Expr.paren note inner).reduce typeOf? single).Gives before (code, result) after ↔
    ∃ reduced, (inner.reduce typeOf? single).Gives before (code, reduced) after ∧
      result = if reduced.isBinary then .paren note reduced else reduced := by
  simp only [reduce, bind_pure_comp, gives_map, Prod.exists, Prod.mk.injEq]
  constructor
  · intro parts
    rcases parts with ⟨_, reduced, given, rfl, same⟩
    exact ⟨reduced, given, same⟩
  · intro parts
    rcases parts with ⟨reduced, given, same⟩
    exact ⟨_, reduced, given, rfl, same⟩

/-- The steps that put the byte offset of an element into a temporary. -/
def Offset (typeOf? : String → Option DeclaredType) (declared : DeclaredType) (name : String)
    (line : Nat) (indices : List Expr) (before : Names N) (code : List Instr)
    (offset : Expr) (after : Names N) : Prop :=
  ∃ first rest firstCode firstResult afterFirst termCode term afterTerm sumCode sum afterSum
      offsetCode,
    indices = first :: rest ∧
    (first.reduce typeOf? true).Gives before (firstCode, firstResult) afterFirst ∧
    (addressTerm declared name line 0 firstResult).Gives afterFirst (termCode, term) afterTerm ∧
    (addTerms typeOf? declared name line 1 term rest).Gives afterTerm (sumCode, sum) afterSum ∧
    (materialize (.binary (addressNote line) .mul sum
      (.int (addressNote line) declared.basic.width))).Gives afterSum (offsetCode, offset) after ∧
    code = firstCode ++ termCode ++ sumCode ++ offsetCode

theorem reduce_access_gives {id : Ident} {first : Expr} {rest : List Expr} :
    ((Expr.loc note id (first :: rest)).reduce typeOf? single).Gives before (code, result) after ↔
    ∃ declared offsetCode offset afterOffset lastCode,
      typeOf? id.name = some declared ∧
      Offset typeOf? declared id.name note.line (first :: rest) before offsetCode offset
        afterOffset ∧
      (settle single (.loc note id [offset])).Gives afterOffset (lastCode, result) after ∧
      code = offsetCode ++ lastCode := by
  cases typed : typeOf? id.name with
  | none => simp [reduce, typed]
  | some declared =>
      simp only [reduce, typed, gives_bind, gives_pure, Prod.exists, Prod.mk.injEq, Offset]
      constructor
      · intro parts
        rcases parts with ⟨_, _, _, firstGiven, _, _, _, termGiven, _, _, _, sumGiven, _, offset,
          afterOffset, offsetGiven, lastCode, _, _, settled, ⟨rfl, rfl⟩, rfl⟩
        exact ⟨declared, _, offset, afterOffset, lastCode, rfl,
          ⟨_, _, _, _, _, _, _, _, _, _, _, _, rfl, firstGiven, termGiven, sumGiven, offsetGiven,
            rfl⟩,
          settled, rfl⟩
      · intro parts
        rcases parts with ⟨_, _, offset, afterOffset, lastCode, same,
          ⟨_, _, _, _, _, _, _, _, _, _, _, _, sameIndices, firstGiven, termGiven, sumGiven,
            offsetGiven, rfl⟩,
          settled, rfl⟩
        cases same
        cases sameIndices
        exact ⟨_, _, _, firstGiven, _, _, _, termGiven, _, _, _, sumGiven, _, offset, afterOffset,
          offsetGiven, lastCode, _, _, settled, ⟨rfl, rfl⟩, rfl⟩

theorem addTerms_nil_gives {sum : Expr} :
    (addTerms typeOf? declared name line dimension sum []).Gives before (code, result) after ↔
    code = [] ∧ result = sum ∧ after = before := by
  simp [addTerms, and_assoc]

theorem addTerms_cons_gives {sum index : Expr} {rest : List Expr} :
    (addTerms typeOf? declared name line dimension sum (index :: rest)).Gives before
      (code, result) after ↔
    ∃ indexCode indexResult afterIndex termCode term afterTerm sumCode newSum afterSum restCode,
      (index.reduce typeOf? true).Gives before (indexCode, indexResult) afterIndex ∧
      (addressTerm declared name line dimension indexResult).Gives afterIndex
        (termCode, term) afterTerm ∧
      (materialize (.binary (addressNote line) .add sum term)).Gives afterTerm
        (sumCode, newSum) afterSum ∧
      (addTerms typeOf? declared name line (dimension + 1) newSum rest).Gives afterSum
        (restCode, result) after ∧
      code = indexCode ++ termCode ++ sumCode ++ restCode := by
  simp [addTerms]

theorem addressTerm_gives : (addressTerm declared name line dimension expr).Gives before
      (code, result) after ↔
    ∃ stride, declared.stride dimension = some stride ∧
      (stride = 1 ∧ code = [] ∧ result = expr ∧ after = before ∨
        stride ≠ 1 ∧ stride ≤ intMax ∧
          (materialize (.binary (addressNote line) .mul expr
            (.int (addressNote line) stride))).Gives before (code, result) after) := by
  rw [addressTerm]
  cases declared.stride dimension with
  | none => simp
  | some stride =>
      by_cases one : stride = 1
      · simp [one, and_assoc]
      · by_cases large : intMax < stride
        · simp [one, large, Nat.not_le_of_lt large]
        · simp [one, large, Nat.le_of_not_lt large]

end Expr

namespace Stmt

open Lowering

variable {scopes : Scopes} {scope : Nat} {exit? : Option Label} {condition : Expr}
  {body : Stmt} {code : List Instr} {before after : Names N}

theorem lower_assign_gives {target value : Expr} {line : Nat} :
    ((Stmt.assign target value line).lower scopes scope exit?).Gives before code after ↔
    ∃ targetCode targetResult afterTarget valueCode valueResult,
      (target.reduce (scopes.typeOf? scope) false).Gives before
        (targetCode, targetResult) afterTarget ∧
      (value.reduce (scopes.typeOf? scope) target.isAccess).Gives afterTarget
        (valueCode, valueResult) after ∧
      code = targetCode ++ valueCode ++ [.assign targetResult valueResult] := by
  simp [lower]

theorem lower_ifThen_gives :
    ((Stmt.ifThen condition body).lower scopes scope exit?).Gives before code after ↔
    ∃ testCode test afterTest bodyCode,
      (condition.reduce (scopes.typeOf? scope) false).Gives before (testCode, test) afterTest ∧
      (body.lower scopes scope exit?).Gives afterTest.afterLabel bodyCode after ∧
      code = testCode ++ [.ifFalse test afterTest.nextLabel] ++ bodyCode ++
        [.label afterTest.nextLabel] := by
  simp [lower, and_assoc]

theorem lower_ifThenElse_gives {otherwise : Stmt} :
    ((Stmt.ifThenElse condition body otherwise).lower scopes scope exit?).Gives before code after ↔
    ∃ testCode test afterTest bodyCode afterBody elseCode,
      (condition.reduce (scopes.typeOf? scope) false).Gives before (testCode, test) afterTest ∧
      (body.lower scopes scope exit?).Gives afterTest.afterLabel bodyCode afterBody ∧
      (otherwise.lower scopes scope exit?).Gives afterBody.afterLabel elseCode after ∧
      code = testCode ++ [.ifFalse test afterTest.nextLabel] ++ bodyCode ++
        [.goto afterBody.nextLabel, .label afterTest.nextLabel] ++ elseCode ++
        [.label afterBody.nextLabel] := by
  simp [lower, and_assoc]

/-- The names left after the two labels of a loop. -/
def loopNames (names : Names N) : Names N :=
  names.afterLabel.afterLabel

/-- The test at the head of a loop, which a loop on the literal `true` does without. -/
def LoopTest (typeOf? : String → Option DeclaredType) (condition : Expr) (behind : Label)
    (before : Names N) (code : List Instr) (after : Names N) : Prop :=
  if condition.isTrue then code = [] ∧ after = before
  else ∃ testCode test, (condition.reduce typeOf? false).Gives before (testCode, test) after ∧
    code = testCode ++ [.ifFalse test behind]

theorem lower_whileDo_gives :
    ((Stmt.whileDo condition body).lower scopes scope exit?).Gives before code after ↔
    ∃ testCode afterTest bodyCode,
      LoopTest (scopes.typeOf? scope) condition before.afterLabel.nextLabel (loopNames before)
        testCode afterTest ∧
      (body.lower scopes scope (some before.afterLabel.nextLabel)).Gives afterTest bodyCode after ∧
      code = [.label before.nextLabel] ++ testCode ++ bodyCode ++
        [.goto before.nextLabel, .label before.afterLabel.nextLabel] := by
  cases always : condition.isTrue with
  | true => simp [lower, LoopTest, loopNames, always, and_assoc]
  | false =>
      simp only [LoopTest, loopNames, always, Bool.false_eq_true, if_false]
      simp only [lower, always, Bool.false_eq_true, if_false, gives_bind, freshLabel_gives,
        gives_pure, Prod.exists]
      constructor
      · intro parts
        rcases parts with ⟨_, _, ⟨rfl, rfl⟩, _, _, ⟨rfl, rfl⟩, testCode, test, _, reduced,
          _, _, ⟨rfl, rfl⟩, bodyCode, _, lowered, rfl, rfl⟩
        exact ⟨_, _, bodyCode, ⟨testCode, test, reduced, rfl⟩, lowered, rfl⟩
      · intro parts
        rcases parts with ⟨_, afterTest, bodyCode, ⟨testCode, test, reduced, rfl⟩, lowered, rfl⟩
        exact ⟨_, _, ⟨rfl, rfl⟩, _, _, ⟨rfl, rfl⟩, testCode, test, _, reduced,
          _, _, ⟨rfl, rfl⟩, bodyCode, _, lowered, rfl, rfl⟩

theorem lower_doWhile_gives :
    ((Stmt.doWhile body condition).lower scopes scope exit?).Gives before code after ↔
    ∃ bodyCode afterBody testCode test,
      (body.lower scopes scope (some before.afterLabel.nextLabel)).Gives (loopNames before)
        bodyCode afterBody ∧
      (condition.reduce (scopes.typeOf? scope) false).Gives afterBody (testCode, test) after ∧
      code = [.label before.nextLabel] ++ bodyCode ++ testCode ++
        [.ifTrue test before.nextLabel, .label before.afterLabel.nextLabel] := by
  simp [lower, loopNames, and_assoc]

theorem lower_breakLoop_gives :
    (Stmt.breakLoop.lower scopes scope exit?).Gives before code after ↔
    ∃ behind, exit? = some behind ∧ code = [.goto behind] ∧ after = before := by
  cases exit? <;> simp [lower]

theorem lower_block_gives {inner : Nat} {declarations : List Declaration} {body : List Stmt} :
    ((Stmt.block inner declarations body).lower scopes scope exit?).Gives before code after ↔
    (lowerAll scopes inner exit? body).Gives before code after := by
  rw [lower]

theorem lowerAll_nil_gives : (lowerAll scopes scope exit? []).Gives before code after ↔
    code = [] ∧ after = before := by
  simp [lowerAll]

theorem lowerAll_cons_gives {first : Stmt} {rest : List Stmt} :
    (lowerAll scopes scope exit? (first :: rest)).Gives before code after ↔
    ∃ firstCode middle restCode,
      (first.lower scopes scope exit?).Gives before firstCode middle ∧
      (lowerAll scopes scope exit? rest).Gives middle restCode after ∧
      code = firstCode ++ restCode := by
  simp [lowerAll]

end Stmt

theorem Program.generate_gives {program : Program} {overflow : Overflow}
    {context left : NameContext} {code : List Instr} :
    program.generate overflow context = some (.ok code, left) ↔
    ∃ names, (program.block.stmt.lower program.scopes program.block.scope none).Gives context.names
        code names ∧
      left = ⟨names.temps.word, names.labels.word⟩ ∧
      (overflow = .stops → names.temps.overflowed = false ∧ names.labels.overflowed = false) := by
  constructor
  · intro generated
    unfold generate at generated
    rcases lowered : program.lowerFrom context.names with ⟨result, names⟩
    rw [lowered] at generated
    dsimp only at generated
    split at generated
    · contradiction
    · next went =>
        cases generated
        exact ⟨names, Stmt.lower_block_gives.mpr lowered, rfl, fun stops => by
          simpa [stops] using went⟩
  · intro parts
    rcases parts with ⟨names, given, rfl, went⟩
    have lowered : program.lowerFrom context.names = (.ok code, names) :=
      Stmt.lower_block_gives.mp given
    unfold generate
    rw [lowered]
    refine if_neg fun stopped => ?_
    obtain ⟨noTemps, noLabels⟩ := went stopped.1
    simp [noTemps, noLabels] at stopped

end ThreeAddress
