import ThreeAddress.Proofs.Lowering.Labels
import ThreeAddress.Proofs.Lowering.Relabelled
import ThreeAddress.Proofs.Lowering.Temporaries

namespace ThreeAddress

open Lowering Machine Counter

namespace Relabelling

/-- The names of a program behind those that have been taken. -/
def behind (taken : NameSupply) : Relabelling where
  name := id
  line := id
  temps := taken.temps
  labels := taken.labels
  name_injective := Function.injective_id

variable {taken : NameSupply}

mutual

/-- There is nothing to shift in a tree without temporaries. -/
theorem behind_expr (expr : Expr) (tempFree : expr.TempFree) : (behind taken).expr expr = expr := by
  match expr with
  | .binary note op left right =>
      rw [Relabelling.expr, behind_expr left tempFree.1, behind_expr right tempFree.2]
      rfl
  | .unary note op operand =>
      rw [Relabelling.expr, behind_expr operand tempFree]
      rfl
  | .paren note inner =>
      rw [Relabelling.expr, behind_expr inner tempFree]
      rfl
  | .loc note id indices =>
      rw [Relabelling.expr, behind_exprs indices tempFree]
      rfl
  | .int note value | .real note value | .bool note value => rfl
  | .temp note number => exact tempFree.elim

theorem behind_exprs (indices : List Expr) (tempFree : Expr.AllTempFree indices) :
    (behind taken).exprs indices = indices := by
  match indices with
  | [] => rfl
  | index :: rest => rw [exprs, behind_expr index tempFree.1, behind_exprs rest tempFree.2]

end

theorem behind_declarations (declarations : List Declaration) :
    declarations.map (behind taken).declaration = declarations :=
  List.map_id declarations

theorem behind_scopes (scopes : Scopes) : (behind taken).scopes scopes = scopes := by
  have same : (behind taken).scope = id := by
    funext scope
    rw [Relabelling.scope, behind_declarations]
    rfl
  rw [Relabelling.scopes, same, Array.map_id]

mutual

theorem behind_stmt (stmt : Stmt) {scope : Nat}
    (tempFree : stmt.EachExpr (fun _ expr => expr.TempFree) scope) :
    (behind taken).stmt stmt = stmt := by
  match stmt with
  | .assign target value line =>
      rw [Relabelling.stmt, behind_expr target tempFree.1, behind_expr value tempFree.2]
      rfl
  | .ifThen condition body =>
      rw [Relabelling.stmt, behind_expr condition tempFree.1, behind_stmt body tempFree.2]
  | .ifThenElse condition body otherwise =>
      rw [Relabelling.stmt, behind_expr condition tempFree.1, behind_stmt body tempFree.2.1,
        behind_stmt otherwise tempFree.2.2]
  | .whileDo condition body =>
      rw [Relabelling.stmt, behind_expr condition tempFree.1, behind_stmt body tempFree.2]
  | .doWhile body condition =>
      rw [Relabelling.stmt, behind_stmt body tempFree.1, behind_expr condition tempFree.2]
  | .breakLoop => rfl
  | .block inner declarations body =>
      rw [Relabelling.stmt, behind_declarations, behind_stmts body tempFree]

theorem behind_stmts (body : List Stmt) {scope : Nat}
    (tempFree : Stmt.EachExprOfAll (fun _ expr => expr.TempFree) scope body) :
    (behind taken).stmts body = body := by
  match body with
  | [] => rfl
  | first :: rest => rw [stmts, behind_stmt first tempFree.1, behind_stmts rest tempFree.2]

end

theorem behind_program {program : Program} (tempFree : program.TempFree) :
    (behind taken).program program = program := by
  have body : (behind taken).stmts program.block.body = program.block.body :=
    behind_stmts _ tempFree
  rw [Relabelling.program, Relabelling.block, behind_declarations, behind_scopes, body]

theorem behind_lowered {α β : Type} (image : α → β) (answer : Except InternalFault α × NameSupply) :
    (behind taken).lowered image answer = (answer.1.map image, (behind taken).names answer.2) := by
  rcases answer with ⟨fault | value, after⟩
  · cases fault <;> rfl
  · rfl

end Relabelling

open Relabelling (behind behind_program behind_lowered)

variable {program : Program} {names after : NameSupply} {code : List Instr}

namespace Program

/-- Taken names shift the code of a program, and nothing else. -/
theorem lower_behind (tempFree : program.TempFree) (taken : NameSupply) :
    program.lower taken = ((program.lower {}).1.map (behind taken).code,
      (behind taken).names (program.lower {}).2) := by
  have start : (behind taken).names {} = taken := by
    simp [Relabelling.names, behind, Counter.start_nat]
  have shifted := @lower_relabelled (behind taken) program {}
  rwa [behind_program tempFree, start, behind_lowered] at shifted

/-- Lowers programs one after the other with the same supply of names. -/
def lowerEach (names : NameSupply) : List Program → List (Except InternalFault (List Instr))
  | [] => []
  | program :: rest => (program.lower names).1 :: lowerEach (program.lower names).2 rest

end Program

/-- The code of all programs that are lowered, joined. -/
def joinedCode : List (Except InternalFault (List Instr)) → List Instr
  | [] => []
  | .ok code :: rest => code ++ joinedCode rest
  | .error _ :: rest => joinedCode rest

/-- Two programs, if both are lowered, have no temporary and no label in common. -/
def Apart (first second : Except InternalFault (List Instr)) : Prop :=
  ∀ code other, first = .ok code → second = .ok other →
    (temps code).Disjoint (temps other) ∧ (labels code).Disjoint (labels other)

/-- All names in the code come after those taken before it. -/
structure Above (taken : NameSupply) (code : List Instr) : Prop where
  temps : ∀ number ∈ Machine.temps code, taken.temps < number
  labels : ∀ label ∈ Machine.labels code, taken.labels < label.number

/-- All names in the code have been taken behind it. -/
structure Below (code : List Instr) (taken : NameSupply) : Prop where
  temps : ∀ number ∈ Machine.temps code, number ≤ taken.temps
  labels : ∀ label ∈ Machine.labels code, label.number ≤ taken.labels

/-- No label stands twice, and every jump goes to a label. -/
structure JumpsInside (code : List Instr) : Prop where
  once : (labels code).Nodup
  jumps : ∀ target ∈ targets code, target ∈ labels code

section

variable {taken later : NameSupply} {other : List Instr}

theorem Above.of_le (temps : taken.temps ≤ later.temps) (labels : taken.labels ≤ later.labels)
    (above : Above later code) : Above taken code where
  temps := fun number inside => Nat.lt_of_le_of_lt temps (above.temps number inside)
  labels := fun label inside => Nat.lt_of_le_of_lt labels (above.labels label inside)

theorem Below.temps_disjoint (below : Below code taken) (above : Above taken other) :
    (Machine.temps code).Disjoint (Machine.temps other) :=
  fun number first second => Nat.not_lt.mpr (below.temps number first) (above.temps number second)

theorem Below.labels_disjoint (below : Below code taken) (above : Above taken other) :
    (Machine.labels code).Disjoint (Machine.labels other) :=
  fun label first second => Nat.not_lt.mpr (below.labels label first) (above.labels label second)

theorem Above.append (first : Above taken code) (second : Above taken other) :
    Above taken (code ++ other) where
  temps := by
    rw [Machine.temps, List.flatMap_append]
    exact fun number inside => (List.mem_append.mp inside).elim (first.temps number)
      (second.temps number)
  labels := by
    rw [labels_append]
    exact List.forall_mem_append.mpr ⟨first.labels, second.labels⟩

theorem JumpsInside.append (first : JumpsInside code) (second : JumpsInside other)
    (disjoint : (labels code).Disjoint (labels other)) : JumpsInside (code ++ other) where
  once := by
    rw [labels_append]
    exact List.nodup_append'.mpr ⟨first.once, second.once, disjoint⟩
  jumps := by
    rw [labels_append, targets_append]
    exact List.forall_mem_append.mpr
      ⟨fun target inside => List.mem_append_left _ (first.jumps target inside),
        fun target inside => List.mem_append_right _ (second.jumps target inside)⟩

end

/-- The names in the code of a program are those that it takes. -/
theorem lower_takes (tempFree : program.TempFree)
    (lowered : program.lower names = (.ok code, after)) :
    Above names code ∧ Below code after ∧ JumpsInside code := by
  have flows : Flows ⟨names.temps, []⟩ code ⟨after.temps, []⟩ :=
    Stmt.lowerAll_flows program.block.body tempFree lowered
  obtain ⟨taken, labelled⟩ := Stmt.lowerAll_labelled program.block.body lowered
  have temps (number : Nat) (inside : number ∈ temps code) :
      names.temps < number ∧ number ≤ after.temps := by
    have alike := flows.balance
    rw [List.nil_append, List.append_nil] at alike
    obtain ⟨count, counted, fills⟩ := flows.filled
    dsimp only at counted fills
    rw [after_nat] at counted
    rw [temps_perm.mem_iff, List.mem_append, ← alike.mem_iff, or_self, fills, numbers_nat,
      List.mem_range'_1] at inside
    omega
  have labels (label : Label) (inside : label ∈ labels code) :
      names.labels < label.number ∧ label.number ≤ after.labels := by
    rw [labelled.labels.mem_iff, labelsAfter, List.mem_map] at inside
    obtain ⟨number, member, rfl⟩ := inside
    rw [numbers_nat, List.mem_range'_1] at member
    rw [taken, after_nat]
    change names.labels < number ∧ number ≤ _
    omega
  exact ⟨⟨fun number inside => (temps number inside).1,
      fun label inside => (labels label inside).1⟩,
    ⟨fun number inside => (temps number inside).2, fun label inside => (labels label inside).2⟩,
    ⟨labelled.labels.nodup_iff.mpr (labelsAfter_nodup (numbers_nat ▸ List.nodup_range')),
      fun target inside => (labelled.targets target inside).resolve_right (by simp)⟩⟩

/-- No name is given back, also where lowering fails. -/
theorem lower_keeps (tempFree : program.TempFree) (names : NameSupply) :
    names.temps ≤ (program.lower names).2.temps ∧
      names.labels ≤ (program.lower names).2.labels := by
  rw [Program.lower_behind tempFree names]
  exact ⟨Nat.le_add_left .., Nat.le_add_left ..⟩

theorem lowerEach_above (programs : List Program)
    (tempFree : ∀ program ∈ programs, program.TempFree) (names : NameSupply) :
    ∀ code, .ok code ∈ Program.lowerEach names programs → Above names code := by
  induction programs generalizing names with
  | nil => nofun
  | cons program rest ih =>
      obtain ⟨free, others⟩ := List.forall_mem_cons.mp tempFree
      obtain ⟨temps, labels⟩ := lower_keeps free names
      intro code member
      rcases List.mem_cons.mp member with here | behind
      · exact (lower_takes free (Prod.ext here.symm rfl)).1
      · exact (ih others _ code behind).of_le temps labels

theorem lowerEach_apart (programs : List Program)
    (tempFree : ∀ program ∈ programs, program.TempFree) (names : NameSupply) :
    (Program.lowerEach names programs).Pairwise Apart := by
  induction programs generalizing names with
  | nil => exact .nil
  | cons program rest ih =>
      obtain ⟨free, others⟩ := List.forall_mem_cons.mp tempFree
      refine .cons (fun result member code other here there => ?_) (ih others _)
      subst there
      obtain ⟨-, below, -⟩ := lower_takes free (Prod.ext here rfl)
      have above := lowerEach_above rest others _ other member
      exact ⟨below.temps_disjoint above, below.labels_disjoint above⟩

theorem lowerEach_shifted (programs : List Program)
    (tempFree : ∀ program ∈ programs, program.TempFree) (names : NameSupply) :
    List.Forall₂ (fun program result => ∃ taken, result = (program.lower {}).1.map
      (behind taken).code) programs (Program.lowerEach names programs) := by
  induction programs generalizing names with
  | nil => exact .nil
  | cons program rest ih =>
      obtain ⟨free, others⟩ := List.forall_mem_cons.mp tempFree
      exact .cons ⟨names, congrArg Prod.fst (Program.lower_behind free names)⟩ (ih others _)

theorem joinedCode_jumps (programs : List Program)
    (tempFree : ∀ program ∈ programs, program.TempFree) (names : NameSupply) :
    Above names (joinedCode (Program.lowerEach names programs)) ∧
      JumpsInside (joinedCode (Program.lowerEach names programs)) := by
  induction programs generalizing names with
  | nil => exact ⟨⟨nofun, nofun⟩, ⟨.nil, nofun⟩⟩
  | cons program rest ih =>
      obtain ⟨free, others⟩ := List.forall_mem_cons.mp tempFree
      obtain ⟨temps, labels⟩ := lower_keeps free names
      obtain ⟨above, jumps⟩ := ih others (program.lower names).2
      rw [Program.lowerEach]
      cases here : (program.lower names).1 with
      | error fault => exact ⟨above.of_le temps labels, jumps⟩
      | ok code =>
          obtain ⟨codeAbove, below, codeJumps⟩ := lower_takes free (Prod.ext here rfl)
          exact ⟨codeAbove.append (above.of_le temps labels),
            codeJumps.append jumps (below.labels_disjoint above)⟩

/-- Programs without temporaries that are lowered one after the other with the same supply of
names do not interfere. Each is lowered, or fails, as it does with all names free, with one shift
for all its temporaries and one for all its labels; no two have a temporary or a label in common;
and a jump in the joined code goes to exactly one label. -/
theorem shared_names_separate {programs : List Program}
    (tempFree : ∀ program ∈ programs, program.TempFree) (names : NameSupply) :
    List.Forall₂ (fun program result => ∃ taken, result = (program.lower {}).1.map
      (behind taken).code) programs (Program.lowerEach names programs) ∧
    (Program.lowerEach names programs).Pairwise Apart ∧
    ∀ target ∈ targets (joinedCode (Program.lowerEach names programs)),
      (labels (joinedCode (Program.lowerEach names programs))).count target = 1 := by
  obtain ⟨-, once, jumps⟩ := joinedCode_jumps programs tempFree names
  exact ⟨lowerEach_shifted programs tempFree names, lowerEach_apart programs tempFree names,
    fun target jump => List.count_eq_one_of_mem once (jumps target jump)⟩

/-- Counts up in a loop, in one temporary and two labels. -/
def countUp : Stmt :=
  let counter : Expr := .loc ⟨1, some .int⟩ ⟨"x", 1⟩ []
  let number (value : Int) : Expr := .int ⟨1, some .int⟩ value
  .whileDo (.binary ⟨1, some .bool⟩ .less counter (number 9))
    (.assign counter (.binary ⟨1, some .int⟩ .add counter
      (.binary ⟨1, some .int⟩ .mul (number 2) (number 3))) 1)

/-- A program that counts up, and then does this. -/
def countUpThen (last : List Stmt) : Program :=
  ⟨⟨0, [], countUp :: last⟩, {}⟩

/-- The second of three programs fails at a break outside of any loop, with names taken. -/
theorem countUp_separate : ∃ code other,
    (∀ program ∈ [countUpThen [], countUpThen [.breakLoop], countUpThen []], program.TempFree) ∧
    Program.lowerEach {} [countUpThen [], countUpThen [.breakLoop], countUpThen []] =
      [.ok code, .error .strayBreak, .ok other] ∧
    temps code = [1, 1] ∧ labels code = [⟨1⟩, ⟨2⟩] ∧
    temps other = [3, 3] ∧ labels other = [⟨5⟩, ⟨6⟩] ∧
    (∃ taken, other = (behind taken).code code) ∧
    Apart (.ok code) (.ok other) ∧
    ∀ target ∈ targets (code ++ other), (labels (code ++ other)).count target = 1 := by
  have tempFree : ∀ program ∈ [countUpThen [], countUpThen [.breakLoop], countUpThen []],
      program.TempFree := by
    simp [countUpThen, countUp, Program.TempFree, Block.stmt, Stmt.EachExpr, Stmt.EachExprOfAll,
      Expr.TempFree, Expr.AllTempFree]
  have lowered : ∃ code other,
      Program.lowerEach {} [countUpThen [], countUpThen [.breakLoop], countUpThen []] =
        [.ok code, .error .strayBreak, .ok other] ∧
      ((countUpThen []).lower {}).1 = .ok code ∧
      temps code = [1, 1] ∧ labels code = [⟨1⟩, ⟨2⟩] ∧
      temps other = [3, 3] ∧ labels other = [⟨5⟩, ⟨6⟩] :=
    ⟨_, _, rfl, rfl, rfl, rfl, rfl, rfl⟩
  obtain ⟨code, other, each, alone, codeTemps, codeLabels, otherTemps, otherLabels⟩ := lowered
  obtain ⟨shifts, apart, once⟩ := shared_names_separate tempFree {}
  rw [each] at shifts apart once
  simp only [List.forall₂_cons] at shifts
  obtain ⟨-, -, ⟨taken, last⟩, -⟩ := shifts
  rw [alone] at last
  have firstLast := (List.pairwise_cons.mp apart).1 (.ok other) (by simp)
  refine ⟨code, other, tempFree, each, codeTemps, codeLabels, otherTemps, otherLabels,
    ⟨taken, Except.ok.inj last⟩, firstLast, ?_⟩
  simpa [joinedCode] using once

end ThreeAddress
