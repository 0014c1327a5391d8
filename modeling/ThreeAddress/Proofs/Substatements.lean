import ThreeAddress.Program

namespace ThreeAddress.Stmt

mutual

/-- A statement and the statements inside of it, each before those inside of itself. -/
def parts : Stmt → List Stmt
  | .ifThen condition body => .ifThen condition body :: body.parts
  | .ifThenElse condition body otherwise =>
      .ifThenElse condition body otherwise :: (body.parts ++ otherwise.parts)
  | .whileDo condition body => .whileDo condition body :: body.parts
  | .doWhile body condition => .doWhile body condition :: body.parts
  | .block scope declarations body => .block scope declarations body :: allParts body
  | .assign target value line => [.assign target value line]
  | .breakLoop => [.breakLoop]

def allParts : List Stmt → List Stmt
  | [] => []
  | first :: rest => first.parts ++ allParts rest

end

def isIf : Stmt → Bool
  | .ifThen _ _ | .ifThenElse _ _ _ => true
  | _ => false

def hasElse : Stmt → Bool
  | .ifThenElse _ _ _ => true
  | _ => false

def isLoop : Stmt → Bool
  | .whileDo _ _ | .doWhile _ _ => true
  | _ => false

/-- A statement with a gap for one of the statements directly inside of it. -/
inductive Frame where
  | thenBranch (condition : Expr)
  | yesBranch (condition : Expr) (otherwise : Stmt)
  | noBranch (condition : Expr) (body : Stmt)
  | whileBody (condition : Expr)
  | doBody (condition : Expr)
  | member (scope : Nat) (declarations : List Declaration) (earlier later : List Stmt)

namespace Frame

def fill (stmt : Stmt) : Frame → Stmt
  | .thenBranch condition => .ifThen condition stmt
  | .yesBranch condition otherwise => .ifThenElse condition stmt otherwise
  | .noBranch condition body => .ifThenElse condition body stmt
  | .whileBody condition => .whileDo condition stmt
  | .doBody condition => .doWhile stmt condition
  | .member scope declarations earlier later =>
      .block scope declarations (earlier ++ stmt :: later)

def isLoop : Frame → Bool
  | .whileBody _ | .doBody _ => true
  | _ => false

end Frame

/-- Puts a statement into the innermost of some frames, and each of these into the one before
it. -/
def surround (frames : List Frame) (stmt : Stmt) : Stmt :=
  frames.foldr (fun frame inner => frame.fill inner) stmt

variable {stmt part : Stmt} {body : List Stmt} {frame : Frame} {frames more : List Frame}

theorem self_mem_parts : stmt ∈ stmt.parts := by
  cases stmt <;> simp [parts]

theorem mem_allParts :
    part ∈ allParts body ↔ ∃ stmt ∈ body, part ∈ stmt.parts := by
  induction body with
  | nil => simp [allParts]
  | cons first rest ih => simp [allParts, ih]

@[simp] theorem surround_nil : surround [] stmt = stmt := rfl

@[simp] theorem surround_cons :
    surround (frame :: frames) stmt = frame.fill (surround frames stmt) := rfl

theorem surround_append :
    surround (frames ++ more) stmt = surround frames (surround more stmt) :=
  List.foldr_append

theorem Frame.mem_parts_fill (member : part ∈ stmt.parts) :
    part ∈ (frame.fill stmt).parts := by
  cases frame with
  | member scope declarations earlier later =>
      refine List.mem_cons_of_mem _ (mem_allParts.mpr ⟨stmt, ?_, member⟩)
      exact List.mem_append_right earlier List.mem_cons_self
  | _ => simp [fill, parts, member]

mutual

theorem surrounded_of_mem_parts (whole : Stmt) (member : part ∈ whole.parts) :
    ∃ frames, whole = surround frames part := by
  match whole with
  | .ifThen condition body =>
      rcases List.mem_cons.mp member with rfl | inside
      · exact ⟨[], rfl⟩
      · obtain ⟨frames, rfl⟩ := surrounded_of_mem_parts body inside
        exact ⟨.thenBranch condition :: frames, rfl⟩
  | .ifThenElse condition body otherwise =>
      rcases List.mem_cons.mp member with rfl | inside
      · exact ⟨[], rfl⟩
      · rcases List.mem_append.mp inside with inBody | inElse
        · obtain ⟨frames, rfl⟩ := surrounded_of_mem_parts body inBody
          exact ⟨.yesBranch condition otherwise :: frames, rfl⟩
        · obtain ⟨frames, rfl⟩ := surrounded_of_mem_parts otherwise inElse
          exact ⟨.noBranch condition body :: frames, rfl⟩
  | .whileDo condition body =>
      rcases List.mem_cons.mp member with rfl | inside
      · exact ⟨[], rfl⟩
      · obtain ⟨frames, rfl⟩ := surrounded_of_mem_parts body inside
        exact ⟨.whileBody condition :: frames, rfl⟩
  | .doWhile body condition =>
      rcases List.mem_cons.mp member with rfl | inside
      · exact ⟨[], rfl⟩
      · obtain ⟨frames, rfl⟩ := surrounded_of_mem_parts body inside
        exact ⟨.doBody condition :: frames, rfl⟩
  | .block scope declarations body =>
      rcases List.mem_cons.mp member with rfl | inside
      · exact ⟨[], rfl⟩
      · obtain ⟨earlier, frames, later, rfl⟩ := surrounded_of_mem_allParts body inside
        exact ⟨.member scope declarations earlier later :: frames, rfl⟩
  | .assign target value line =>
      rw [List.mem_singleton.mp member]
      exact ⟨[], rfl⟩
  | .breakLoop =>
      rw [List.mem_singleton.mp member]
      exact ⟨[], rfl⟩

theorem surrounded_of_mem_allParts (body : List Stmt) (member : part ∈ allParts body) :
    ∃ earlier frames later, body = earlier ++ surround frames part :: later := by
  match body with
  | [] => contradiction
  | first :: rest =>
      rcases List.mem_append.mp member with inFirst | inRest
      · obtain ⟨frames, rfl⟩ := surrounded_of_mem_parts first inFirst
        exact ⟨[], frames, rest, rfl⟩
      · obtain ⟨earlier, frames, later, rfl⟩ := surrounded_of_mem_allParts rest inRest
        exact ⟨first :: earlier, frames, later, rfl⟩

end

/-- The parts of a statement are what its frames surround. -/
theorem mem_parts_iff {whole : Stmt} :
    part ∈ whole.parts ↔ ∃ frames, whole = surround frames part := by
  constructor
  · exact surrounded_of_mem_parts whole
  · intro surrounded
    obtain ⟨frames, rfl⟩ := surrounded
    induction frames with
    | nil => exact self_mem_parts
    | cons frame frames ih => exact Frame.mem_parts_fill ih

/-- The innermost of some frames that is a loop. -/
theorem innermost_loop (frames : List Frame) :
    (∀ frame ∈ frames, frame.isLoop = false) ∨
      ∃ outer loop inner, frames = outer ++ loop :: inner ∧ loop.isLoop = true ∧
        ∀ frame ∈ inner, frame.isLoop = false := by
  induction frames with
  | nil => exact .inl fun frame member => (List.not_mem_nil member).elim
  | cons frame frames ih =>
      rcases ih with none | ⟨outer, loop, inner, rfl, isLoop, none⟩
      · cases here : frame.isLoop with
        | true => exact .inr ⟨[], frame, frames, rfl, here, none⟩
        | false => exact .inl (List.forall_mem_cons.mpr ⟨here, none⟩)
      · exact .inr ⟨frame :: outer, loop, inner, rfl, isLoop, none⟩

end ThreeAddress.Stmt
