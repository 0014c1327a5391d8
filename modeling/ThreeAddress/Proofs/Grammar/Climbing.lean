import ThreeAddress.Proofs.Grammar.Grouping
import ThreeAddress.Proofs.Grammar.Lookahead

namespace ThreeAddress.Grammar

/-!
# Precedence climbing

Operators can be grouped without looking into the tree that is already there. After an
operator and its right operand, those operators that bind tighter claim the operand first,
each in a climb of its own. The readers of this module do so, and they read the same as
those that append one operator after the other, down to the faults.
-/

mutual

/-- Takes the operators of at least this precedence, each with the whole to its left. -/
def climb (declared : String → Bool) (least : Nat) (left : Expr) :
    (tokens : List Token) → MayRead Expr tokens
  | [] => .error .brokenOff
  | token :: rest =>
      match BinaryOp.ofKind? token.kind with
      | none => untouched left (token :: rest)
      | some op =>
          if op.precedence < least then untouched left (token :: rest)
          else do
            let ⟨whole, after, shorter⟩ ← climbBehind declared least left op token.line rest
            return ⟨whole, after, Nat.lt_succ_of_lt (Nat.lt_succ_of_lt shorter)⟩
termination_by tokens => 2 * tokens.length
decreasing_by simp only [List.length_cons]; omega

/-- Climbs on behind an operator: the operand to its right is what tighter operators make of the
next factor. -/
def climbBehind (declared : String → Bool) (least : Nat) (left : Expr) (op : BinaryOp)
    (line : Nat) (tokens : List Token) : Reads Expr tokens := do
  let ⟨operand, middle, shorter⟩ ← factor declared tokens
  let ⟨right, later, claimed⟩ ← tighten declared op.precedence operand middle
  let ⟨whole, after, within⟩ ← climb declared least (.binary { line } op left right) later
  have notLonger : after.length ≤ middle.length :=
    Nat.le_trans (Nat.le_of_lt_succ within) (Nat.le_of_lt_succ claimed)
  return ⟨whole, after, Nat.lt_of_le_of_lt notLonger shorter⟩
termination_by 2 * tokens.length + 1
decreasing_by all_goals omega

/-- Lets the operators claim an operand that bind tighter than this precedence. The first of them
starts a climb, which goes on as long as none binds less tightly than it. -/
def tighten (declared : String → Bool) (bound : Nat) (right : Expr) :
    (tokens : List Token) → MayRead Expr tokens
  | [] => .error .brokenOff
  | token :: rest =>
      match BinaryOp.ofKind? token.kind with
      | none => untouched right (token :: rest)
      | some op =>
          if op.precedence ≤ bound then untouched right (token :: rest)
          else do
            let ⟨whole, middle, shorter⟩ ←
              climbBehind declared op.precedence right op token.line rest
            let ⟨more, after, within⟩ ← tighten declared bound whole middle
            have notLonger : after.length ≤ middle.length := Nat.le_of_lt_succ within
            have inside : after.length < rest.length := Nat.lt_of_le_of_lt notLonger shorter
            return ⟨more, after, Nat.lt_succ_of_lt (Nat.lt_succ_of_lt inside)⟩
termination_by tokens => 2 * tokens.length
decreasing_by all_goals (simp only [List.length_cons]; omega)

end

open Reader

namespace Reader

variable {α β γ : Type} {tokens rest : List Token} {first : Reader α} {next other : α → Reader β}

theorem andThen_assoc {onward : β → Reader γ} :
    (first.andThen next).andThen onward =
      first.andThen fun value => (next value).andThen onward := by
  funext tokens
  unfold andThen
  rcases first tokens with failure | ⟨value, rest⟩ <;> rfl

theorem andThen_pass : first.andThen pass = first := by
  funext tokens
  unfold andThen
  rcases first tokens with failure | ⟨value, rest⟩ <;> rfl

theorem andThen_congr (same : ∀ value rest, first tokens = .ok (value, rest) →
      next value rest = other value rest) :
    first.andThen next tokens = first.andThen other tokens := by
  unfold andThen
  cases result : first tokens with
  | error failure => rfl
  | ok found => exact same found.1 found.2 result

end Reader

variable {declared : String → Bool} {least bound line : Nat} {left right : Expr} {op : BinaryOp}

theorem climb_reader : ofBounded (climb declared least left) = peek fun token =>
    match BinaryOp.ofKind? token.kind with
    | none => pass left
    | some op =>
        if op.precedence < least then pass left
        else take (ofBounded (climbBehind declared least left op token.line)) := by
  funext tokens
  cases tokens with
  | nil =>
      rw [ofBounded, climb]
      rfl
  | cons token rest =>
      rw [ofBounded, climb, peek]
      cases BinaryOp.ofKind? token.kind with
      | none => rfl
      | some op =>
          dsimp only
          split
          · rfl
          · exact plain_bind_same fun whole => rfl

theorem climbBehind_reader : ofBounded (climbBehind declared least left op line) =
    (ofBounded (factor declared)).andThen fun operand =>
      (ofBounded (tighten declared op.precedence operand)).andThen fun right =>
        ofBounded (climb declared least (.binary { line } op left right)) := by
  funext tokens
  rw [ofBounded, climbBehind]
  exact plain_bind fun operand => plain_bind fun right => plain_bind_same fun whole => rfl

theorem tighten_reader : ofBounded (tighten declared bound right) = peek fun token =>
    match BinaryOp.ofKind? token.kind with
    | none => pass right
    | some op =>
        if op.precedence ≤ bound then pass right
        else take <| (ofBounded (climbBehind declared op.precedence right op token.line)).andThen
          fun whole => ofBounded (tighten declared bound whole) := by
  funext tokens
  cases tokens with
  | nil =>
      rw [ofBounded, tighten]
      rfl
  | cons token rest =>
      rw [ofBounded, tighten, peek]
      cases BinaryOp.ofKind? token.kind with
      | none => rfl
      | some op =>
          dsimp only
          split
          · rfl
          · exact plain_bind fun whole => plain_bind_same fun more => rfl

/-- The binary operator that comes next, if there is one. -/
def operatorAhead? : List Token → Option BinaryOp
  | [] => none
  | token :: _ => BinaryOp.ofKind? token.kind

/-- The operators that come next are all of this kind, and something comes next. -/
def StopsAt (holds : BinaryOp → Prop) (tokens : List Token) : Prop :=
  tokens ≠ [] ∧ ∀ op ∈ operatorAhead? tokens, holds op

/-- The outermost operator, if there is one, binds at least as tight. -/
def Tight (least : Nat) (expr : Expr) : Prop :=
  ∀ other ∈ expr.operator?, least ≤ other.precedence

theorem Reader.andThen_eq_ok {α β : Type} {tokens rest : List Token} {first : Reader α}
    {next : α → Reader β} {result : β} : first.andThen next tokens = .ok (result, rest) ↔
    ∃ value middle, first tokens = .ok (value, middle) ∧
      next value middle = .ok (result, rest) := by
  unfold andThen
  rcases first tokens with failure | ⟨value, middle⟩
  · simp
  · constructor
    · intro read
      exact ⟨value, middle, rfl, read⟩
    · rintro ⟨_, _, same, read⟩
      cases same
      exact read

theorem factor_single {tokens rest : List Token} {operand : Expr}
    (read : ofBounded (factor declared) tokens = .ok (operand, rest)) :
    operand.isBinary = false := by
  have found := finds_iff_plain.mpr read
  cases tokens with
  | nil => exact (finds_factor_nil found).elim
  | cons token others =>
      rcases finds_factor.mp found with ⟨_, _, _, _, rfl⟩ | ⟨_, _, _, _, _, rfl⟩ |
        ⟨_, _, rfl, _⟩ | ⟨_, _, rfl, _⟩ | ⟨_, rfl, _⟩ | ⟨_, rfl, _⟩ | ⟨_, _, place⟩
      · rfl
      · rfl
      · rfl
      · rfl
      · rfl
      · rfl
      · obtain ⟨_, _, _, rfl⟩ := finds_location.mp place
        rfl

mutual

/-- A climb stops at an operator that binds less tightly than it asks for, and takes none. -/
theorem climb_ends (tokens : List Token) {left whole : Expr} {rest : List Token}
    (read : ofBounded (climb declared least left) tokens = .ok (whole, rest))
    (holds : Tight least left) : StopsAt (·.precedence < least) rest ∧ Tight least whole := by
  match tokens with
  | [] =>
      rw [climb_reader] at read
      cases read
  | token :: others =>
      rw [climb_reader] at read
      dsimp only [peek] at read
      cases sign : BinaryOp.ofKind? token.kind with
      | none =>
          rw [sign] at read
          cases read
          refine ⟨⟨List.cons_ne_nil _ _, ?_⟩, holds⟩
          rw [operatorAhead?, sign]
          nofun
      | some op =>
          rw [sign] at read
          dsimp only at read
          by_cases weaker : op.precedence < least
          · rw [if_pos weaker] at read
            cases read
            refine ⟨⟨List.cons_ne_nil _ _, ?_⟩, holds⟩
            rw [operatorAhead?, sign]
            rintro _ ⟨⟩
            exact weaker
          · rw [if_neg weaker] at read
            exact climbBehind_ends others read (Nat.not_lt.mp weaker)
termination_by 2 * tokens.length
decreasing_by simp only [List.length_cons] at *; omega

theorem climbBehind_ends (tokens : List Token) {left whole : Expr} {op : BinaryOp} {line : Nat}
    {rest : List Token}
    (read : ofBounded (climbBehind declared least left op line) tokens = .ok (whole, rest))
    (tight : least ≤ op.precedence) :
    StopsAt (·.precedence < least) rest ∧ Tight least whole := by
  rw [climbBehind_reader] at read
  obtain ⟨operand, middle, operandRead, others⟩ := andThen_eq_ok.mp read
  obtain ⟨right, later, rightRead, climbed⟩ := andThen_eq_ok.mp others
  have first : middle.length < tokens.length := within_of_plain operandRead
  have second : later.length < middle.length + 1 := within_of_plain rightRead
  refine climb_ends later climbed ?_
  rintro _ ⟨⟩
  exact tight
termination_by 2 * tokens.length + 1
decreasing_by omega

end

theorem tighten_ends (tokens : List Token) {right whole : Expr} {rest : List Token}
    (read : ofBounded (tighten declared bound right) tokens = .ok (whole, rest)) :
    StopsAt (·.precedence ≤ bound) rest := by
  match tokens with
  | [] =>
      rw [tighten_reader] at read
      cases read
  | token :: others =>
      rw [tighten_reader] at read
      dsimp only [peek] at read
      cases sign : BinaryOp.ofKind? token.kind with
      | none =>
          rw [sign] at read
          cases read
          refine ⟨List.cons_ne_nil _ _, ?_⟩
          rw [operatorAhead?, sign]
          nofun
      | some op =>
          rw [sign] at read
          dsimp only at read
          by_cases weaker : op.precedence ≤ bound
          · rw [if_pos weaker] at read
            cases read
            refine ⟨List.cons_ne_nil _ _, ?_⟩
            rw [operatorAhead?, sign]
            rintro _ ⟨⟩
            exact weaker
          · rw [if_neg weaker] at read
            obtain ⟨claimed, middle, climbed, again⟩ := andThen_eq_ok.mp read
            have shorter : middle.length < others.length := within_of_plain climbed
            exact tighten_ends middle again
termination_by tokens.length
decreasing_by simp only [List.length_cons] at *; omega

/-- Operators that bind at least this tight are appended to what is put in, not to the whole. -/
def Transparent (least : Nat) (plug : Expr → Expr) : Prop :=
  ∀ expr line op operand, least ≤ op.precedence →
    (plug expr).extend line op operand = plug (expr.extend line op operand)

theorem Transparent.behind {plug : Expr → Expr} {note : Note} (transparent : Transparent least plug)
    (tight : least ≤ op.precedence) :
    Transparent (op.precedence + 1) fun right => plug (.binary note op left right) := by
  intro right line other operand tighter
  dsimp only
  rw [transparent _ _ _ _ (by omega), Expr.extend, if_pos (by omega)]

/-- If an operator comes next that binds at least this tight, it does not bind tighter than the
outermost one here. -/
def Settled (least : Nat) (left : Expr) (tokens : List Token) : Prop :=
  ∀ op ∈ operatorAhead? tokens, least ≤ op.precedence → Tight op.precedence left

theorem Settled.of_single {tokens : List Token} (single : left.isBinary = false) :
    Settled least left tokens := by
  intro op _ _
  rw [Tight, Expr.operator?_of_single single]
  nofun

/-- An operator that comes next is settled with the whole to its left. -/
theorem operations_settled {token : Token} {rest : List Token} {plug : Expr → Expr}
    (sign : BinaryOp.ofKind? token.kind = some op) (tight : least ≤ op.precedence)
    (transparent : Transparent least plug) (settled : Settled least left (token :: rest)) :
    ofBounded (operations declared (plug left)) (token :: rest) =
      ((ofBounded (factor declared)).andThen fun operand => ofBounded
        (operations declared (plug (.binary { line := token.line } op left operand)))) rest := by
  have outermost : Tight op.precedence left := by
    refine settled op ?_ tight
    rw [operatorAhead?, sign]
    rfl
  rw [operations_reader]
  dsimp only [peek]
  rw [sign]
  refine andThen_congr fun operand after _ => ?_
  rw [transparent _ _ _ _ tight, Expr.extend_of_weaker outermost]

mutual

/-- Appending goes on behind a climb as if there had been none. -/
theorem climb_resumed (tokens : List Token) {least : Nat} {left : Expr} {plug : Expr → Expr}
    (transparent : Transparent least plug) (settled : Settled least left tokens) :
    (ofBounded (climb declared least left)).andThen
      (fun whole => ofBounded (operations declared (plug whole))) tokens =
    ofBounded (operations declared (plug left)) tokens := by
  match tokens with
  | [] =>
      rw [climb_reader, operations_reader]
      rfl
  | token :: others =>
      rw [climb_reader]
      dsimp only [andThen, peek]
      cases sign : BinaryOp.ofKind? token.kind with
      | none => rfl
      | some op =>
          dsimp only
          by_cases weaker : op.precedence < least
          · rw [if_pos weaker]
            rfl
          · have tight := Nat.not_lt.mp weaker
            rw [if_neg weaker, operations_settled sign tight transparent settled]
            exact climbBehind_resumed others transparent tight
termination_by 2 * tokens.length
decreasing_by simp only [List.length_cons] at *; omega

theorem climbBehind_resumed (tokens : List Token) {least : Nat} {left : Expr} {op : BinaryOp}
    {line : Nat} {plug : Expr → Expr} (transparent : Transparent least plug)
    (tight : least ≤ op.precedence) :
    (ofBounded (climbBehind declared least left op line)).andThen
      (fun whole => ofBounded (operations declared (plug whole))) tokens =
    (ofBounded (factor declared)).andThen (fun operand =>
      ofBounded (operations declared (plug (.binary { line } op left operand)))) tokens := by
  rw [climbBehind_reader, andThen_assoc]
  refine andThen_congr fun operand middle operandRead => ?_
  have first : middle.length < tokens.length := within_of_plain operandRead
  rw [andThen_assoc]
  have climbed : (ofBounded (tighten declared op.precedence operand)).andThen (fun right =>
      (ofBounded (climb declared least (.binary { line } op left right))).andThen
        fun whole => ofBounded (operations declared (plug whole))) middle =
      (ofBounded (tighten declared op.precedence operand)).andThen
        (fun right => ofBounded (operations declared (plug (.binary { line } op left right))))
        middle := by
    refine andThen_congr fun right later rightRead => ?_
    have second : later.length < middle.length + 1 := within_of_plain rightRead
    refine climb_resumed later transparent fun next ahead _ => ?_
    rintro _ ⟨⟩
    exact (tighten_ends middle rightRead).2 next ahead
  rw [climbed]
  exact tighten_resumed middle (transparent.behind tight) (.of_single (factor_single operandRead))
termination_by 2 * tokens.length + 1
decreasing_by all_goals omega

theorem tighten_resumed (tokens : List Token) {bound : Nat} {right : Expr} {plug : Expr → Expr}
    (transparent : Transparent (bound + 1) plug) (settled : Settled (bound + 1) right tokens) :
    (ofBounded (tighten declared bound right)).andThen
      (fun whole => ofBounded (operations declared (plug whole))) tokens =
    ofBounded (operations declared (plug right)) tokens := by
  match tokens with
  | [] =>
      rw [tighten_reader, operations_reader]
      rfl
  | token :: others =>
      rw [tighten_reader]
      dsimp only [andThen, peek]
      cases sign : BinaryOp.ofKind? token.kind with
      | none => rfl
      | some op =>
          dsimp only
          by_cases weaker : op.precedence ≤ bound
          · rw [if_pos weaker]
            rfl
          · have tight : bound + 1 ≤ op.precedence := Nat.not_le.mp weaker
            rw [if_neg weaker, operations_settled sign tight transparent settled]
            have again : ∀ whole middle,
                ofBounded (climbBehind declared op.precedence right op token.line) others =
                  .ok (whole, middle) →
                (ofBounded (tighten declared bound whole)).andThen
                  (fun more => ofBounded (operations declared (plug more))) middle =
                ofBounded (operations declared (plug whole)) middle := by
              intro whole middle read
              have shorter : middle.length < others.length := within_of_plain read
              obtain ⟨stops, holds⟩ := climbBehind_ends others read (Nat.le_refl _)
              refine tighten_resumed middle transparent fun next ahead _ other outermost => ?_
              exact Nat.le_trans (Nat.le_of_lt (stops.2 next ahead)) (holds other outermost)
            have onward : Transparent op.precedence plug := fun expr line next operand tighter =>
              transparent expr line next operand (Nat.le_trans tight tighter)
            change ((ofBounded (climbBehind declared op.precedence right op token.line)).andThen
              fun whole => ofBounded (tighten declared bound whole)).andThen _ others = _
            rw [andThen_assoc]
            exact (andThen_congr again).trans
              (climbBehind_resumed others onward (Nat.le_refl _))
termination_by 2 * tokens.length
decreasing_by all_goals (simp only [List.length_cons] at *; omega)

end

/-- A climb that asks for nothing takes all operators, so it groups them as appending does. -/
theorem climb_eq_operations (single : left.isBinary = false) :
    ofBounded (climb declared 0 left) = ofBounded (operations declared left) := by
  funext tokens
  have transparent : Transparent 0 id := fun _ _ _ _ _ => rfl
  have stays : ∀ whole rest, ofBounded (climb declared 0 left) tokens = .ok (whole, rest) →
      ofBounded (operations declared (id whole)) rest = pass whole rest := by
    intro whole rest read
    obtain ⟨⟨goesOn, stops⟩, -⟩ := climb_ends tokens read fun _ _ => Nat.zero_le _
    cases rest with
    | nil => contradiction
    | cons token others =>
        rw [operations_reader]
        dsimp only [peek]
        cases sign : BinaryOp.ofKind? token.kind with
        | none => rfl
        | some op => exact (Nat.not_lt_zero _ (stops op sign)).elim
  calc ofBounded (climb declared 0 left) tokens
      = (ofBounded (climb declared 0 left)).andThen pass tokens := by rw [andThen_pass]
    _ = (ofBounded (climb declared 0 left)).andThen
          (fun whole => ofBounded (operations declared (id whole))) tokens :=
        (andThen_congr stays).symm
    _ = ofBounded (operations declared left) tokens :=
        climb_resumed tokens transparent (.of_single single)

/-- The readers of expressions climb, with the same answers and the same faults. -/
theorem expression_climbs : ofBounded (expression declared) =
    (ofBounded (factor declared)).andThen fun first => ofBounded (climb declared 0 first) := by
  funext tokens
  rw [expression_reader]
  exact andThen_congr fun first middle read => by rw [climb_eq_operations (factor_single read)]

end ThreeAddress.Grammar
