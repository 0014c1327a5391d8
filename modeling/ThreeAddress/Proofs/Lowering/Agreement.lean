import ThreeAddress.Proofs.Execution.Structured
import ThreeAddress.Proofs.Lowering.Values

namespace ThreeAddress

open Machine

/-- The place of a cell of a declared variable: its name, and its address behind the name. -/
def Scopes.Lays (scopes : Scopes) (cell : Cell) (place : Place) : Prop :=
  ∃ declaration, scopes.declared? cell.home cell.name = some declaration ∧
    DeclaredType.inBounds declaration.type.dims cell.indices = true ∧
    place = .cell cell.name (declaration.type.address cell.indices)

/-- Every declared scalar and every element of a declared array has the value in the memory
that it has in the store. -/
def Agrees (scopes : Scopes) (store : Store Value) (memory : Place → Value) : Prop :=
  ∀ cell place, scopes.Lays cell place → memory place = store cell

section

variable {Value : Type} {scopes : Scopes} {scope : Nat} {cell other : Cell} {place : Place}
  {name : String} {indices : List Int} {declared : DeclaredType} {store : Store Value}
  {memory final : Place → Value}

/-- What a name with indices means in a scope has its place there. -/
theorem Scopes.lays_of_cell (found : scopes.cell? scope name indices = some cell)
    (typed : scopes.typeOf? scope name = some declared) :
    scopes.Lays cell (.cell name (declared.address indices)) := by
  obtain ⟨declaration, atHome, declares, within, rfl, rfl⟩ := Scopes.cell?_eq_some found
  cases typed.symm.trans (Scopes.typeOf?_of_home atHome declares)
  exact ⟨declaration, declares, within, rfl⟩

theorem Scopes.lays_functional (first : scopes.Lays cell place) {another : Place}
    (second : scopes.Lays cell another) : place = another := by
  obtain ⟨declaration, declares, -, rfl⟩ := first
  obtain ⟨same, alsoDeclares, -, rfl⟩ := second
  cases declares.symm.trans alsoDeclares
  rfl

/-- Two cells share a place only if they are one, where no name is declared twice. -/
theorem Scopes.lays_injective (distinct : scopes.NamesDistinct) (first : scopes.Lays cell place)
    (second : scopes.Lays other place) : cell = other := by
  obtain ⟨declaration, declares, within, rfl⟩ := first
  obtain ⟨otherDeclaration, otherDeclares, otherWithin, same⟩ := second
  obtain ⟨sameName, sameAddress⟩ := Place.cell.inj same
  rw [← sameName] at otherDeclares
  have sameHome := distinct cell.name _ _ _ _ declares otherDeclares
  rw [← sameHome] at otherDeclares
  cases declares.symm.trans otherDeclares
  exact Cell.ext sameHome sameName (DeclaredType.address_injective within otherWithin sameAddress)

theorem Agrees.keep {low : Nat} (agrees : Agrees scopes store memory)
    (kept : Keeps low memory final) : Agrees scopes store final := by
  intro cell place lays
  obtain ⟨declaration, declares, within, rfl⟩ := lays
  rw [kept.cell]
  exact agrees cell _ ⟨declaration, declares, within, rfl⟩

theorem Agrees.mirrors (agrees : Agrees scopes store memory) :
    Mirrors (scopes.typeOf? scope) (scopes.load scope store) memory := by
  intro name declared indices value typed loaded
  obtain ⟨cell, found, rfl⟩ := Option.map_eq_some_iff.mp loaded
  exact agrees cell _ (Scopes.lays_of_cell found typed)

/-- An assignment to a cell and to its place changes no other cell. -/
theorem Agrees.update (distinct : scopes.NamesDistinct) (agrees : Agrees scopes store memory)
    (lays : scopes.Lays cell place) (value : Value) :
    Agrees scopes (Function.update store cell value) (Function.update memory place value) := by
  intro another elsewhere otherLays
  by_cases same : another = cell
  · subst another
    cases Scopes.lays_functional lays otherLays
    rw [Function.update_self, Function.update_self]
  · have apart : elsewhere ≠ place := by
      intro same
      rcases same with rfl
      exact same (Scopes.lays_injective distinct otherLays lays)
    rw [Function.update_of_ne same, Function.update_of_ne apart]
    exact agrees another elsewhere otherLays

open Classical in
/-- Every store can be laid out in a memory. -/
theorem exists_agrees (distinct : scopes.NamesDistinct) (store : Store Value)
    (rest : Place → Value) : ∃ memory, Agrees scopes store memory := by
  refine ⟨fun place =>
    if laid : ∃ cell, scopes.Lays cell place then store laid.choose else rest place, ?_⟩
  intro cell place lays
  have laid : ∃ cell, scopes.Lays cell place := ⟨cell, lays⟩
  have chosen : laid.choose = cell := Scopes.lays_injective distinct laid.choose_spec lays
  simp only [dif_pos laid, chosen]

end

end ThreeAddress
