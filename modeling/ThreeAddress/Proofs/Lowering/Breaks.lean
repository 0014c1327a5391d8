import Mathlib.Tactic
import ThreeAddress.Compile
import ThreeAddress.Proofs.Lowering.Labels

namespace ThreeAddress

open Lowering Machine

variable {N : Type} [Counter N]

namespace Stmt

/-- What a statement is lowered with: the scope and the loop it stands in, and the names that
are left. -/
structure Point (N : Type) [Counter N] where
  scope : Nat
  exit? : Option Label
  names : Names N

variable {scopes : Scopes} {outer inner middle : Point N} {frame : Frame} {frames more : List Frame}
  {part : Stmt} {body rest : List Stmt} {code front back : List Instr} {after : Names N}

def Point.Gives (scopes : Scopes) (point : Point N) (stmt : Stmt) (code : List Instr)
    (after : Names N) : Prop :=
  (stmt.lower scopes point.scope point.exit?).Gives point.names code after

/-- Whatever statement the frames surround, its code follows `front` in the code of the whole,
and is made at the inner point if that of the whole is made at the outer one. -/
def Leads (scopes : Scopes) (frames : List Frame) (outer : Point N) (front : List Instr)
    (inner : Point N) : Prop :=
  ∀ stmt code after, outer.Gives scopes (surround frames stmt) code after →
    ∃ segment middle back, inner.Gives scopes stmt segment middle ∧
      code = front ++ segment ++ back

theorem Leads.here : Leads scopes [] outer [] outer := by
  intro stmt code after given
  exact ⟨code, after, [], given, by simp⟩

theorem Leads.append (first : Leads scopes frames outer front middle)
    (second : Leads scopes more middle back inner) :
    Leads scopes (frames ++ more) outer (front ++ back) inner := by
  intro stmt code after given
  rw [surround_append] at given
  obtain ⟨segment, middleAfter, tail, segmentGiven, rfl⟩ := first _ code after given
  obtain ⟨inside, insideAfter, insideTail, insideGiven, rfl⟩ := second stmt _ _ segmentGiven
  exact ⟨inside, insideAfter, insideTail ++ tail, insideGiven, by simp only [List.append_assoc]⟩

theorem lowerAll_append_gives {scope : Nat} {exit? : Option Label} {before : Names N} :
    (lowerAll scopes scope exit? (body ++ rest)).Gives before code after ↔
    ∃ bodyCode middle restCode, (lowerAll scopes scope exit? body).Gives before bodyCode middle ∧
      (lowerAll scopes scope exit? rest).Gives middle restCode after ∧
      code = bodyCode ++ restCode := by
  induction body generalizing before code with
  | nil =>
      constructor
      · intro given
        exact ⟨[], before, code, lowerAll_nil_gives.mpr ⟨rfl, rfl⟩, given, rfl⟩
      · intro parts
        obtain ⟨_, _, restCode, nothing, given, rfl⟩ := parts
        obtain ⟨rfl, rfl⟩ := lowerAll_nil_gives.mp nothing
        exact given
  | cons first body ih =>
      constructor
      · intro given
        obtain ⟨firstCode, middle, _, firstGiven, bothGiven, rfl⟩ :=
          lowerAll_cons_gives.mp given
        obtain ⟨bodyCode, afterBody, restCode, bodyGiven, restGiven, rfl⟩ := ih.mp bothGiven
        exact ⟨firstCode ++ bodyCode, afterBody, restCode,
          lowerAll_cons_gives.mpr ⟨firstCode, middle, bodyCode, firstGiven, bodyGiven, rfl⟩,
          restGiven, by rw [List.append_assoc]⟩
      · intro parts
        obtain ⟨_, afterBody, restCode, bothGiven, restGiven, rfl⟩ := parts
        obtain ⟨firstCode, middle, bodyCode, firstGiven, bodyGiven, rfl⟩ :=
          lowerAll_cons_gives.mp bothGiven
        exact lowerAll_cons_gives.mpr ⟨firstCode, middle, bodyCode ++ restCode, firstGiven,
          ih.mpr ⟨bodyCode, afterBody, restCode, bodyGiven, restGiven, rfl⟩,
          by rw [List.append_assoc]⟩

theorem LoopTest.unique {typeOf? : String → Option DeclaredType} {condition : Expr}
    {behind : Label} {before otherAfter : Names N} {other : List Instr}
    (tested : LoopTest typeOf? condition behind before code after)
    (again : LoopTest typeOf? condition behind before other otherAfter) :
    code = other ∧ after = otherAfter := by
  unfold LoopTest at tested again
  split at tested
  · obtain ⟨rfl, rfl⟩ := tested
    simp_all
  · next notTrue =>
      rw [if_neg notTrue] at again
      obtain ⟨testCode, test, given, rfl⟩ := tested
      obtain ⟨otherCode, otherTest, otherGiven, rfl⟩ := again
      obtain ⟨same, rfl⟩ := given.unique otherGiven
      cases same
      exact ⟨rfl, rfl⟩

/-- The label to leave by inside a frame. -/
def Frame.exit? (frame : Frame) (outer : Point N) : Option Label :=
  if frame.isLoop then some outer.names.afterLabel.nextLabel else outer.exit?

/-- The code before the gap of a frame does not depend on what stands in the gap. -/
theorem Frame.leads (given : outer.Gives scopes (frame.fill part) code after) :
    ∃ front inner, Leads scopes [frame] outer front inner ∧ inner.exit? = frame.exit? outer := by
  cases frame with
  | thenBranch condition =>
      obtain ⟨testCode, test, afterTest, _, tested, -, -⟩ := lower_ifThen_gives.mp given
      refine ⟨testCode ++ [.ifFalse test afterTest.nextLabel],
        ⟨outer.scope, outer.exit?, afterTest.afterLabel⟩, ?_, rfl⟩
      intro stmt code after given
      obtain ⟨_, _, _, bodyCode, testedAgain, bodyGiven, rfl⟩ := lower_ifThen_gives.mp given
      obtain ⟨same, rfl⟩ := tested.unique testedAgain
      cases same
      exact ⟨bodyCode, after, _, bodyGiven, rfl⟩
  | yesBranch condition otherwise =>
      obtain ⟨testCode, test, afterTest, _, _, _, tested, -, -, -⟩ :=
        lower_ifThenElse_gives.mp given
      refine ⟨testCode ++ [.ifFalse test afterTest.nextLabel],
        ⟨outer.scope, outer.exit?, afterTest.afterLabel⟩, ?_, rfl⟩
      intro stmt code after given
      obtain ⟨_, _, _, bodyCode, afterBody, elseCode, testedAgain, bodyGiven, -, rfl⟩ :=
        lower_ifThenElse_gives.mp given
      obtain ⟨same, rfl⟩ := tested.unique testedAgain
      cases same
      exact ⟨bodyCode, afterBody, [.goto afterBody.nextLabel, .label afterTest.nextLabel] ++
        elseCode ++ [.label afterBody.nextLabel], bodyGiven, by simp only [List.append_assoc]⟩
  | noBranch condition body =>
      obtain ⟨testCode, test, afterTest, bodyCode, afterBody, _, tested, bodyGiven, -, -⟩ :=
        lower_ifThenElse_gives.mp given
      refine ⟨testCode ++ [.ifFalse test afterTest.nextLabel] ++ bodyCode ++
          [.goto afterBody.nextLabel, .label afterTest.nextLabel],
        ⟨outer.scope, outer.exit?, afterBody.afterLabel⟩, ?_, rfl⟩
      intro stmt code after given
      obtain ⟨_, _, _, _, _, elseCode, testedAgain, bodyAgain, elseGiven, rfl⟩ :=
        lower_ifThenElse_gives.mp given
      obtain ⟨same, rfl⟩ := tested.unique testedAgain
      cases same
      obtain ⟨rfl, rfl⟩ := bodyGiven.unique bodyAgain
      exact ⟨elseCode, after, _, elseGiven, rfl⟩
  | whileBody condition =>
      obtain ⟨testCode, afterTest, _, tested, -, -⟩ := lower_whileDo_gives.mp given
      refine ⟨[.label outer.names.nextLabel] ++ testCode,
        ⟨outer.scope, some outer.names.afterLabel.nextLabel, afterTest⟩, ?_, rfl⟩
      intro stmt code after given
      obtain ⟨_, _, bodyCode, testedAgain, bodyGiven, rfl⟩ := lower_whileDo_gives.mp given
      obtain ⟨rfl, rfl⟩ := LoopTest.unique tested testedAgain
      exact ⟨bodyCode, after, _, bodyGiven, rfl⟩
  | doBody condition =>
      refine ⟨[.label outer.names.nextLabel],
        ⟨outer.scope, some outer.names.afterLabel.nextLabel, loopNames outer.names⟩, ?_, rfl⟩
      intro stmt code after given
      obtain ⟨bodyCode, afterBody, testCode, test, bodyGiven, -, rfl⟩ :=
        lower_doWhile_gives.mp given
      exact ⟨bodyCode, afterBody, testCode ++
        [.ifTrue test outer.names.nextLabel, .label outer.names.afterLabel.nextLabel], bodyGiven,
        by simp only [List.append_assoc]⟩
  | member scope declarations earlier later =>
      obtain ⟨earlierCode, middle, _, earlierGiven, -, -⟩ :=
        lowerAll_append_gives.mp (lower_block_gives.mp given)
      refine ⟨earlierCode, ⟨scope, outer.exit?, middle⟩, ?_, rfl⟩
      intro stmt code after given
      obtain ⟨_, _, _, earlierAgain, restGiven, rfl⟩ :=
        lowerAll_append_gives.mp (lower_block_gives.mp given)
      obtain ⟨rfl, rfl⟩ := earlierGiven.unique earlierAgain
      obtain ⟨stmtCode, afterStmt, laterCode, stmtGiven, -, rfl⟩ :=
        lowerAll_cons_gives.mp restGiven
      exact ⟨stmtCode, afterStmt, laterCode, stmtGiven, by rw [List.append_assoc]⟩

theorem leads_of_gives (given : outer.Gives scopes (surround frames part) code after) :
    ∃ front inner, Leads scopes frames outer front inner ∧
      ((∀ frame ∈ frames, frame.isLoop = false) → inner.exit? = outer.exit?) := by
  induction frames generalizing outer code after with
  | nil => exact ⟨[], outer, .here, fun _ => rfl⟩
  | cons frame frames ih =>
      obtain ⟨front, middle, first, firstExit⟩ := Frame.leads given
      obtain ⟨segment, middleAfter, _, segmentGiven, -⟩ := first _ _ _ given
      obtain ⟨back, inner, second, secondExit⟩ := ih segmentGiven
      refine ⟨front ++ back, inner, first.append second, fun noLoop => ?_⟩
      obtain ⟨here, inside⟩ := List.forall_mem_cons.mp noLoop
      rw [secondExit inside, firstExit, Frame.exit?, here]
      rfl

/-- The code of a loop ends with the label to leave by. -/
theorem Frame.loop_ends (isLoop : frame.isLoop = true)
    (given : outer.Gives scopes (frame.fill part) code after) :
    ∃ inside, code = inside ++ [.label outer.names.afterLabel.nextLabel] := by
  cases frame with
  | whileBody condition =>
      obtain ⟨testCode, afterTest, bodyCode, -, -, rfl⟩ := lower_whileDo_gives.mp given
      exact ⟨[.label outer.names.nextLabel] ++ testCode ++ bodyCode ++
        [.goto outer.names.nextLabel], by simp⟩
  | doBody condition =>
      obtain ⟨bodyCode, afterBody, testCode, test, -, -, rfl⟩ := lower_doWhile_gives.mp given
      exact ⟨[.label outer.names.nextLabel] ++ bodyCode ++ testCode ++
        [.ifTrue test outer.names.nextLabel], by simp⟩
  | _ => contradiction

/-- The break in the gap of the frames stands in a loop, and is a jump to the label directly behind
the code of the innermost one. -/
def BreakLeaves (scopes : Scopes) (frames : List Frame) (start : Point N)
    (code : List Instr) : Prop :=
  ∃ outer loop inner, frames = outer ++ loop :: inner ∧ loop.isLoop = true ∧
    (∀ frame ∈ inner, frame.isLoop = false) ∧
    ∃ outside head inside here behind rest back after,
      Leads scopes outer start outside head ∧ Leads scopes (loop :: inner) head inside here ∧
      here.Gives scopes .breakLoop [.goto behind] here.names ∧
      head.Gives scopes (surround (loop :: inner) .breakLoop)
        (inside ++ [.goto behind] ++ rest ++ [.label behind]) after ∧
      code = outside ++ (inside ++ [.goto behind] ++ rest ++ [.label behind]) ++ back

theorem breakLeaves_of_gives (outermost : outer.exit? = none)
    (given : outer.Gives scopes (surround frames .breakLoop) code after) :
    BreakLeaves scopes frames outer code := by
  rcases innermost_loop frames with noLoop | ⟨before, loop, inner, rfl, isLoop, noLoop⟩
  · obtain ⟨front, inner, leads, sameExit⟩ := leads_of_gives given
    obtain ⟨segment, middle, _, breakGiven, -⟩ := leads _ _ _ given
    obtain ⟨behind, leaves, -, -⟩ := lower_breakLoop_gives.mp breakGiven
    rw [sameExit noLoop, outermost] at leaves
    contradiction
  · rw [surround_append] at given
    obtain ⟨outside, head, toLoop, -⟩ := leads_of_gives given
    obtain ⟨loopCode, afterLoop, back, loopGiven, rfl⟩ := toLoop _ _ _ given
    obtain ⟨first, body, toBody, bodyExit⟩ := Frame.leads loopGiven
    obtain ⟨bodyCode, afterBody, _, bodyGiven, -⟩ := toBody _ _ _ loopGiven
    obtain ⟨second, here, toBreak, sameExit⟩ := leads_of_gives bodyGiven
    have toHere := toBody.append toBreak
    obtain ⟨segment, middle, tail, breakGiven, split⟩ := toHere _ _ _ loopGiven
    obtain ⟨behind, leaves, rfl, rfl⟩ := lower_breakLoop_gives.mp breakGiven
    have behindLoop : behind = head.names.afterLabel.nextLabel := by
      rw [sameExit noLoop, bodyExit, Frame.exit?, if_pos isLoop] at leaves
      exact (Option.some.inj leaves).symm
    obtain ⟨loopInside, ends⟩ := Frame.loop_ends isLoop loopGiven
    rw [← behindLoop] at ends
    -- The code of the loop ends with a label, so something follows the jump in it.
    rcases List.eq_nil_or_concat tail with rfl | ⟨rest, last, rfl⟩
    · have sameEnd := congrArg List.getLast? (split.symm.trans ends)
      simp at sameEnd
    · rw [List.concat_eq_append, ← List.append_assoc] at split
      have sameEnd := congrArg List.getLast? (split.symm.trans ends)
      rw [List.getLast?_concat, List.getLast?_concat, Option.some.injEq] at sameEnd
      subst sameEnd
      subst split
      exact ⟨before, loop, inner, rfl, isLoop, noLoop, outside, head, first ++ second, here, behind,
        rest, back, afterLoop, toLoop, toHere, breakGiven, loopGiven, rfl⟩

end Stmt

open Stmt

/-- The code of a program holds one label for each `if`, one for each `else` and two for each
loop, and no others, each of them once. They have the numbers behind that of the context; jumps
only go to them, and a break goes directly behind the innermost loop around it. All of this is so
in a build that stops at an overflow. In one that goes on at zero the numbers do so as well, and
no label stands twice as long as the program has no more labels than there are words. -/
theorem labels_and_jumps {program : Program} {overflow : Overflow} {context left : NameContext}
    {code : List Instr} (generated : program.generate overflow context = some (.ok code, left)) :
    (labels code).Perm
      ((numbersBehind context.labels program.block.stmt.labelCount).map Label.mk) ∧
    left.labels.toNat =
      (context.labels.toNat + program.block.stmt.labelCount) % 2 ^ 32 ∧
    (overflow = .stops ∨ context.labels.toNat + program.block.stmt.labelCount < 2 ^ 32 →
      (labels code).Perm
        ((List.range' (context.labels.toNat + 1) program.block.stmt.labelCount).map Label.mk)) ∧
    (overflow = .stops ∨ program.block.stmt.labelCount ≤ 2 ^ 32 → (labels code).Nodup) ∧
    (∀ target ∈ targets code, target ∈ labels code) ∧
    ∀ frames, program.block.stmt = surround frames .breakLoop →
      BreakLeaves program.scopes frames ⟨program.block.scope, none, context.names⟩ code := by
  obtain ⟨names, given, rfl, went⟩ := Program.generate_gives.mp generated
  obtain ⟨counted, labelled⟩ := lower_labelled program.block.stmt given
  have all := labelled.labels
  rw [labelsAfter, WordCounter.numbers_eq] at all
  have fits (stops : overflow = .stops) :
      context.labels.toNat + program.block.stmt.labelCount < 2 ^ 32 :=
    WordCounter.fits_of_kept (counted ▸ (went stops).2)
  refine ⟨all, ?_, fun below => ?_, fun few => ?_, ?_, ?_⟩
  · rw [counted]
    exact WordCounter.after_word
  · rwa [← numbersBehind_eq (below.elim fits id)]
  · rw [labelled.labels.nodup_iff]
    exact labelsAfter_nodup (WordCounter.numbers_eq ▸ nodup_numbersBehind_of_few fits few)
  · intro target member
    exact (labelled.targets target member).resolve_right (by simp)
  · intro frames surrounded
    rw [surrounded] at given
    exact breakLeaves_of_gives rfl given

/-- A loop in a branch of an `if` in a loop, with a break for each of the loops. -/
def nestedBreaks : String :=
  "\x7b int i; while (true) if (i == 3) break; else do \x7b if (i < 2) break; i = i + 1; \x7d " ++
    "while (i < 9); \x7d"

/-- The labels of one run start at six, those of another one in the last words. -/
theorem nestedBreaks_labels : ∃ program code left last rest,
    Program.ofSource "nested" nestedBreaks = .ok program ∧
    program.generate .stops ⟨3, 5⟩ = some (.ok code, left) ∧
    program.generate .wraps ⟨3, 4294967293⟩ = some (.ok last, rest) ∧
    program.generate .stops ⟨3, 4294967293⟩ = none ∧
    (labels code).Perm [⟨6⟩, ⟨7⟩, ⟨8⟩, ⟨9⟩, ⟨10⟩, ⟨11⟩, ⟨12⟩] ∧ (labels code).Nodup ∧
    (labels last).Perm [⟨4294967294⟩, ⟨4294967295⟩, ⟨0⟩, ⟨1⟩, ⟨2⟩, ⟨3⟩, ⟨4⟩] ∧
    (labels last).Nodup ∧ (∀ target ∈ targets last, target ∈ labels last) ∧
    ∃ frames, program.block.stmt = surround frames .breakLoop ∧
      BreakLeaves program.scopes frames
        ⟨program.block.scope, none, (NameContext.mk 3 4294967293).names⟩ last := by
  have generated : ∃ program code left last rest,
      Program.ofSource "nested" nestedBreaks = .ok program ∧
      program.generate .stops ⟨3, 5⟩ = some (.ok code, left) ∧
      program.generate .wraps ⟨3, 4294967293⟩ = some (.ok last, rest) ∧
      program.generate .stops ⟨3, 4294967293⟩ = none ∧ program.block.stmt.labelCount = 7 ∧
      Stmt.breakLoop ∈ program.block.stmt.parts := by
    refine ⟨_, _, _, _, _, by cbv, rfl, rfl, rfl, rfl, ?_⟩
    simp [Block.stmt, parts, allParts]
  obtain ⟨program, code, left, last, rest, accepted, below, across, stopped, count, member⟩ :=
    generated
  obtain ⟨-, -, all, once, -, -⟩ := labels_and_jumps below
  obtain ⟨lastAll, -, -, lastOnce, jumps, breaks⟩ := labels_and_jumps across
  rw [count] at all lastAll lastOnce
  obtain ⟨frames, surrounded⟩ := mem_parts_iff.mp member
  exact ⟨program, code, left, last, rest, accepted, below, across, stopped,
    all (.inl rfl), once (.inl rfl), lastAll, lastOnce (.inr (by decide)), jumps, frames, surrounded,
    breaks frames surrounded⟩

end ThreeAddress
