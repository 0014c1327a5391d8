import ThreeAddress.Proofs.Counting
import ThreeAddress.Proofs.Lowering.Steps

namespace ThreeAddress

open Lowering Counter

/-- A counter of 32 bits shows a number of names, and no overflow. -/
structure WordCounter.Shows (counter : WordCounter) (number : Nat) : Prop where
  word : counter.word.toNat = number
  kept : counter.overflowed = false

theorem WordCounter.Shows.next {counter : WordCounter} {number : Nat}
    (shows : counter.Shows number) :
    WordCounter.Shows (Counter.next counter) (number + 1) ∨
      2 ^ 32 ≤ number + 1 ∧ (Counter.next counter).overflowed = true := by
  have small := counter.word.toNat_lt
  rw [shows.word] at small
  rcases Nat.lt_or_ge (number + 1) (2 ^ 32) with fits | more
  · have word : (Counter.next counter).word.toNat = number + 1 := by
      rw [next_toNat, shows.word, Nat.mod_eq_of_lt fits]
    refine .inl ⟨word, ?_⟩
    rw [← Bool.not_eq_true, next_overflowed, shows.kept, shows.word]
    exact not_or.mpr ⟨Bool.false_ne_true, Nat.ne_of_lt fits⟩
  · refine .inr ⟨more, next_overflowed.mpr (.inr ?_)⟩
    rw [shows.word]
    omega

namespace Names

/-- More names have been taken than a word can count. -/
def Exceed (names : NameSupply) : Prop :=
  2 ^ 32 ≤ names.temps ∨ 2 ^ 32 ≤ names.labels

def Overflowed (words : Names WordCounter) : Prop :=
  words.temps.overflowed = true ∨ words.labels.overflowed = true

structure ShownBy (names : NameSupply) (words : Names WordCounter) : Prop where
  temps : words.temps.Shows names.temps
  labels : words.labels.Shows names.labels

theorem ShownBy.not_exceed {names : NameSupply} {words : Names WordCounter}
    (shown : names.ShownBy words) : ¬names.Exceed := by
  have smallTemps := words.temps.word.toNat_lt
  have smallLabels := words.labels.word.toNat_lt
  rw [shown.temps.word] at smallTemps
  rw [shown.labels.word] at smallLabels
  exact not_or.mpr ⟨Nat.not_le_of_lt smallTemps, Nat.not_le_of_lt smallLabels⟩

end Names

namespace Lowering

variable {α β : Type}

section

variable {N : Type} [Counter N] {holds : Names N → Prop} {work : Lowering N α}
  {next : α → Lowering N β} {before : Names N}

/-- What holds of the names before the work holds of those after it. -/
def Preserves (holds : Names N → Prop) (work : Lowering N α) : Prop :=
  ∀ names, holds names → holds (work.run.run names).2

theorem Preserves.after (onward : ∀ value, Preserves holds (next value))
    (there : holds (work.run.run before).2) : holds ((work >>= next).run.run before).2 := by
  rw [run_bind]
  rcases ran : work.run.run before with ⟨fault | value, middle⟩
  · rwa [ran] at there
  · rw [ran] at there
    exact onward value middle there

end

/-- Work on a supply and on words does the same, unless more names are taken than a word can
count. No name is given back, so it shows in the end whether that was the case. -/
structure Matches (work : Lowering Nat α) (other : Lowering WordCounter α) : Prop where
  exceed : Preserves Names.Exceed work
  overflowed : Preserves Names.Overflowed other
  same : ∀ names words, Names.ShownBy names words →
    (other.run.run words).1 = (work.run.run names).1 ∧
        Names.ShownBy (work.run.run names).2 (other.run.run words).2 ∨
      (work.run.run names).2.Exceed ∧ (other.run.run words).2.Overflowed

namespace Matches

theorem pure {value : α} : Matches (pure value) (pure value) where
  exceed := fun _ more => more
  overflowed := fun _ more => more
  same := fun _ _ shown => .inl ⟨rfl, shown⟩

theorem throw {fault : InternalFault} : Matches (throw fault : Lowering Nat α) (throw fault) where
  exceed := fun _ more => more
  overflowed := fun _ more => more
  same := fun _ _ shown => .inl ⟨rfl, shown⟩

theorem bind {work : Lowering Nat α} {other : Lowering WordCounter α}
    {next : α → Lowering Nat β} {onward : α → Lowering WordCounter β}
    (begins : Matches work other) (goesOn : ∀ value, Matches (next value) (onward value)) :
    Matches (work >>= next) (other >>= onward) where
  exceed := fun names more =>
    Preserves.after (fun value => (goesOn value).exceed) (begins.exceed names more)
  overflowed := fun words more =>
    Preserves.after (fun value => (goesOn value).overflowed) (begins.overflowed words more)
  same := by
    intro names words shown
    rcases begins.same names words shown with ⟨sameResult, sameNames⟩ | ⟨more, moreWords⟩
    · rw [run_bind, run_bind]
      rcases ran : work.run.run names with ⟨result, middle⟩
      rcases otherRan : other.run.run words with ⟨otherResult, middleWords⟩
      rw [ran, otherRan] at sameResult sameNames
      obtain rfl : otherResult = result := sameResult
      cases otherResult with
      | error fault => exact .inl ⟨rfl, sameNames⟩
      | ok value => exact (goesOn value).same middle middleWords sameNames
    · exact .inr ⟨Preserves.after (fun value => (goesOn value).exceed) more,
        Preserves.after (fun value => (goesOn value).overflowed) moreWords⟩

end Matches

theorem freshTemp_matches : Matches freshTemp freshTemp where
  exceed := fun _ more => more.imp_left Nat.le_succ_of_le
  overflowed := fun _ more =>
    more.imp_left fun temps => WordCounter.next_overflowed.mpr (.inl temps)
  same := by
    intro names words shown
    rcases shown.temps.next with temps | ⟨more, moreWords⟩
    · exact .inl ⟨congrArg Except.ok temps.word, temps, shown.labels⟩
    · exact .inr ⟨.inl more, .inl moreWords⟩

theorem freshLabel_matches : Matches freshLabel freshLabel where
  exceed := fun _ more => more.imp_right Nat.le_succ_of_le
  overflowed := fun _ more =>
    more.imp_right fun labels => WordCounter.next_overflowed.mpr (.inl labels)
  same := by
    intro names words shown
    rcases shown.labels.next with labels | ⟨more, moreWords⟩
    · exact .inl ⟨congrArg (Except.ok ∘ Label.mk) labels.word, shown.temps, labels⟩
    · exact .inr ⟨.inr more, .inr moreWords⟩

end Lowering

namespace Expr

variable {typeOf? : String → Option DeclaredType}

theorem materialize_matches (expr : Expr) : Matches expr.materialize expr.materialize :=
  .bind freshTemp_matches fun _ => .pure

theorem settle_matches (single : Bool) (expr : Expr) :
    Matches (settle single expr) (settle single expr) := by
  cases single with
  | true => exact materialize_matches expr
  | false => exact .pure

theorem addressTerm_matches (declared : DeclaredType) (name : String) (line dimension : Nat)
    (index : Expr) : Matches (addressTerm declared name line dimension index)
      (addressTerm declared name line dimension index) := by
  unfold addressTerm
  cases declared.stride dimension with
  | none => exact .throw
  | some stride =>
      dsimp only
      split
      · exact .pure
      · split
        · exact .throw
        · exact materialize_matches _

mutual

theorem reduce_matches (single : Bool) (expr : Expr) :
    Matches (expr.reduce typeOf? single) (expr.reduce typeOf? single) := by
  match expr with
  | .binary note op left right =>
      rw [reduce, reduce]
      refine .bind (reduce_matches true left) fun _ => ?_
      refine .bind (reduce_matches true right) fun _ => ?_
      exact .bind (settle_matches single _) fun _ => .pure
  | .unary note op operand =>
      rw [reduce, reduce]
      exact .bind (reduce_matches single operand) fun _ => .pure
  | .paren note inner =>
      rw [reduce, reduce]
      exact .bind (reduce_matches single inner) fun _ => .pure
  | .loc note id [] => exact .pure
  | .loc note id (first :: rest) =>
      rw [reduce, reduce]
      cases typeOf? id.name with
      | none => exact .throw
      | some declared =>
          refine .bind (reduce_matches true first) fun _ => ?_
          refine .bind (addressTerm_matches declared id.name note.line 0 _) fun _ => ?_
          refine .bind (addTerms_matches declared id.name note.line 1 _ rest) fun _ => ?_
          refine .bind (materialize_matches _) fun _ => ?_
          exact .bind (settle_matches single _) fun _ => .pure
  | .int note value => exact .pure
  | .real note value => exact .pure
  | .bool note value => exact .pure
  | .temp note number => exact .pure

theorem addTerms_matches (declared : DeclaredType) (name : String) (line dimension : Nat)
    (sum : Expr) (indices : List Expr) :
    Matches (addTerms typeOf? declared name line dimension sum indices)
      (addTerms typeOf? declared name line dimension sum indices) := by
  match indices with
  | [] => exact .pure
  | index :: rest =>
      rw [addTerms, addTerms]
      refine .bind (reduce_matches true index) fun _ => ?_
      refine .bind (addressTerm_matches declared name line dimension _) fun _ => ?_
      refine .bind (materialize_matches _) fun _ => ?_
      exact .bind (addTerms_matches declared name line (dimension + 1) _ rest) fun _ => .pure

end

end Expr

namespace Stmt

variable {scopes : Scopes}

mutual

theorem lower_matches (scope : Nat) (exit? : Option Label) (stmt : Stmt) :
    Matches (stmt.lower scopes scope exit?) (stmt.lower scopes scope exit?) := by
  match stmt with
  | .assign target value line =>
      rw [lower, lower]
      refine .bind (Expr.reduce_matches false target) fun _ => ?_
      exact .bind (Expr.reduce_matches _ value) fun _ => .pure
  | .ifThen condition body =>
      rw [lower, lower]
      refine .bind (Expr.reduce_matches false condition) fun _ => ?_
      refine .bind freshLabel_matches fun _ => ?_
      exact .bind (lower_matches scope exit? body) fun _ => .pure
  | .ifThenElse condition body otherwise =>
      rw [lower, lower]
      refine .bind (Expr.reduce_matches false condition) fun _ => ?_
      refine .bind freshLabel_matches fun _ => ?_
      refine .bind (lower_matches scope exit? body) fun _ => ?_
      refine .bind freshLabel_matches fun _ => ?_
      exact .bind (lower_matches scope exit? otherwise) fun _ => .pure
  | .whileDo condition body =>
      rw [lower, lower]
      refine .bind freshLabel_matches fun _ => ?_
      refine .bind freshLabel_matches fun behind => ?_
      split
      · refine .bind .pure fun _ => ?_
        exact .bind (lower_matches scope (some behind) body) fun _ => .pure
      · refine .bind (Expr.reduce_matches false condition) fun _ => ?_
        refine .bind .pure fun _ => ?_
        exact .bind (lower_matches scope (some behind) body) fun _ => .pure
  | .doWhile body condition =>
      rw [lower, lower]
      refine .bind freshLabel_matches fun _ => ?_
      refine .bind freshLabel_matches fun behind => ?_
      refine .bind (lower_matches scope (some behind) body) fun _ => ?_
      exact .bind (Expr.reduce_matches false condition) fun _ => .pure
  | .breakLoop =>
      cases exit? with
      | none => exact .throw
      | some behind => exact .pure
  | .block inner declarations body =>
      rw [lower, lower]
      exact lowerAll_matches inner exit? body

theorem lowerAll_matches (scope : Nat) (exit? : Option Label) (body : List Stmt) :
    Matches (lowerAll scopes scope exit? body) (lowerAll scopes scope exit? body) := by
  match body with
  | [] => exact .pure
  | first :: rest =>
      rw [lowerAll, lowerAll]
      refine .bind (lower_matches scope exit? first) fun _ => ?_
      exact .bind (lowerAll_matches scope exit? rest) fun _ => .pure

end

end Stmt

namespace Program

theorem lowerFrom_matches (program : Program) {names : NameSupply} {words : Names WordCounter}
    (shown : names.ShownBy words) :
    (program.lowerFrom words).1 = (program.lowerFrom names).1 ∧
        (program.lowerFrom names).2.ShownBy (program.lowerFrom words).2 ∨
      (program.lowerFrom names).2.Exceed ∧ (program.lowerFrom words).2.Overflowed :=
  (Stmt.lowerAll_matches program.block.scope none program.block.body).same names words shown

theorem context_shown (context : NameContext) :
    Names.ShownBy ⟨context.temps.toNat, context.labels.toNat⟩ context.names :=
  ⟨⟨rfl, rfl⟩, ⟨rfl, rfl⟩⟩

section

variable {program : Program} {context : NameContext} {result : Except InternalFault (List Instr)}
  {names : NameSupply}

/-- As long as a word can count them, the names of a context are those of a supply without end. -/
theorem generate_of_lower (overflow : Overflow)
    (lowered : program.lower ⟨context.temps.toNat, context.labels.toNat⟩ = (result, names))
    (few : ¬names.Exceed) :
    program.generate overflow context =
      some (result, ⟨.ofNat names.temps, .ofNat names.labels⟩) := by
  have alike := program.lowerFrom_matches (context_shown context)
  unfold lower at lowered
  rcases generated : program.lowerFrom context.names with ⟨found, words⟩
  rw [lowered, generated] at alike
  unfold generate
  rw [generated]
  rcases alike with ⟨same, temps, labels⟩ | ⟨more, -⟩
  · obtain rfl : found = result := same
    obtain ⟨sameTemps, keptTemps⟩ : words.temps.Shows names.temps := temps
    obtain ⟨sameLabels, keptLabels⟩ : words.labels.Shows names.labels := labels
    rw [← sameTemps, ← sameLabels, UInt32.ofNat_toNat, UInt32.ofNat_toNat]
    simp [keptTemps, keptLabels]
  · exact absurd more few

/-- Where the supply without end goes on, the run of a build that stops has no result. -/
theorem generate_stops_of_lower
    (lowered : program.lower ⟨context.temps.toNat, context.labels.toNat⟩ = (result, names))
    (more : names.Exceed) : program.generate .stops context = none := by
  have alike := program.lowerFrom_matches (context_shown context)
  unfold lower at lowered
  rw [lowered] at alike
  rcases alike with ⟨-, shown⟩ | ⟨-, moreWords⟩
  · exact absurd more shown.not_exceed
  · exact if_pos ⟨rfl, (Bool.or_eq_true ..).mpr moreWords⟩

end

end Program

end ThreeAddress
