import ThreeAddress.Proofs.Execution.Machine
import ThreeAddress.Proofs.Lowering.Steps
import ThreeAddress.Proofs.WellFormed

namespace ThreeAddress

open Lowering Machine

namespace Stmt

/-- A part stands in a scope, inside a statement that stands in a scope. -/
inductive Within (part : Stmt) (home : Nat) : Nat → Stmt → Prop
  | whole : Within part home home part
  | thenBranch {scope condition body} :
      Within part home scope body → Within part home scope (.ifThen condition body)
  | yesBranch {scope condition body otherwise} :
      Within part home scope body → Within part home scope (.ifThenElse condition body otherwise)
  | noBranch {scope condition body otherwise} :
      Within part home scope otherwise →
        Within part home scope (.ifThenElse condition body otherwise)
  | whileBody {scope condition body} :
      Within part home scope body → Within part home scope (.whileDo condition body)
  | doBody {scope condition body} :
      Within part home scope body → Within part home scope (.doWhile body condition)
  | member {scope inner declarations body stmt} : stmt ∈ body →
      Within part home inner stmt → Within part home scope (.block inner declarations body)

variable {scopes : Scopes} {part whole : Stmt} {home scope : Nat} {exit? : Option Label}
  {code : List Instr} {before after : NameSupply} {body : List Stmt}

theorem AllResolved.member {inLoop : Bool} {stmt : Stmt}
    (resolved : AllResolved scopes inLoop scope body) (present : stmt ∈ body) :
    stmt.Resolved scopes inLoop scope := by
  induction body with
  | nil => contradiction
  | cons first rest ih =>
      rcases List.mem_cons.mp present with rfl | later
      · exact resolved.1
      · exact ih resolved.2 later

theorem Within.resolved {inLoop : Bool} (within : Within part home scope whole)
    (resolved : whole.Resolved scopes inLoop scope) :
    ∃ inLoop, part.Resolved scopes inLoop home := by
  induction within generalizing inLoop with
  | whole => exact ⟨inLoop, resolved⟩
  | thenBranch _ ih => exact ih resolved.2
  | yesBranch _ ih => exact ih resolved.2.1
  | noBranch _ ih => exact ih resolved.2.2
  | whileBody _ ih => exact ih resolved.2
  | doBody _ ih => exact ih resolved.1
  | member present _ ih => exact ih (resolved.member present)

def HasCode (scopes : Scopes) (part : Stmt) (home : Nat) (code : List Instr) : Prop :=
  ∃ exit?, ∃ before : NameSupply, ∃ segment after start,
    (part.lower scopes home exit?).Gives before segment after ∧ CodeAt code start segment

theorem HasCode.nested {outer : List Instr} {offset : Nat} (has : HasCode scopes part home code)
    (placed : CodeAt outer offset code) : HasCode scopes part home outer := by
  obtain ⟨exit?, before, segment, after, start, given, inner⟩ := has
  exact ⟨exit?, before, segment, after, offset + start, given, placed.inside inner⟩

theorem lowerAll_hasCode {stmt : Stmt} (present : stmt ∈ body)
    (given : (lowerAll scopes scope exit? body).Gives before code after) :
    HasCode scopes stmt scope code := by
  induction body generalizing before code with
  | nil => contradiction
  | cons first rest ih =>
      obtain ⟨firstCode, middle, restCode, firstGiven, restGiven, rfl⟩ :=
        lowerAll_cons_gives.mp given
      rcases List.mem_cons.mp present with rfl | later
      · exact ⟨exit?, before, firstCode, middle, 0, firstGiven, CodeAt.whole.left⟩
      · exact (ih later restGiven).nested CodeAt.whole.right

theorem Within.hasCode (within : Within part home scope whole)
    (given : (whole.lower scopes scope exit?).Gives before code after) :
    HasCode scopes part home code := by
  induction within generalizing exit? before code after with
  | whole => exact ⟨exit?, before, code, after, 0, given, .whole⟩
  | thenBranch _ ih =>
      obtain ⟨testCode, test, afterTest, bodyCode, -, bodyGiven, rfl⟩ :=
        lower_ifThen_gives.mp given
      exact (ih bodyGiven).nested CodeAt.whole.left.right
  | yesBranch _ ih =>
      obtain ⟨testCode, test, afterTest, bodyCode, afterBody, elseCode, -, bodyGiven, -, rfl⟩ :=
        lower_ifThenElse_gives.mp given
      exact (ih bodyGiven).nested CodeAt.whole.left.left.left.right
  | noBranch _ ih =>
      obtain ⟨testCode, test, afterTest, bodyCode, afterBody, elseCode, -, -, elseGiven, rfl⟩ :=
        lower_ifThenElse_gives.mp given
      exact (ih elseGiven).nested CodeAt.whole.left.right
  | whileBody _ ih =>
      obtain ⟨testCode, afterTest, bodyCode, -, bodyGiven, rfl⟩ := lower_whileDo_gives.mp given
      exact (ih bodyGiven).nested CodeAt.whole.left.right
  | doBody _ ih =>
      obtain ⟨bodyCode, afterBody, testCode, test, bodyGiven, -, rfl⟩ :=
        lower_doWhile_gives.mp given
      exact (ih bodyGiven).nested CodeAt.whole.left.left.right
  | member present _ ih =>
      obtain ⟨exit?, before, segment, after, start, stmtGiven, placed⟩ :=
        lowerAll_hasCode present (lower_block_gives.mp given)
      exact (ih stmtGiven).nested placed

end Stmt

end ThreeAddress
