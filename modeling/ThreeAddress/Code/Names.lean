import ThreeAddress.Code.Instr
import ThreeAddress.InternalFault

namespace ThreeAddress

/-!
# Fresh names

Temporaries and labels are numbered from one, each in the order in which they are
taken. One supply may serve several programs; a name taken before a fault stays
taken. Nothing is ever done with a counter but to count on, so names can be taken
with counters of any kind.
-/

/-- What names are counted with. -/
class Counter (N : Type) where
  start : N
  next : N → N
  /-- The number of the last name taken. -/
  number : N → Nat

instance : Counter Nat where
  start := 0
  next counter := counter + 1
  number counter := counter

/-- A counter of 32 bits. Behind its last word it goes on at zero, and remembers that. -/
structure WordCounter where
  word : UInt32
  overflowed : Bool := false
deriving DecidableEq

instance : Counter WordCounter where
  start := { word := 0 }
  next counter :=
    { word := counter.word + 1, overflowed := counter.overflowed || counter.word + 1 == 0 }
  number counter := counter.word.toNat

/-- How many names have been taken. -/
structure Names (N : Type) [Counter N] where
  temps : N := Counter.start
  labels : N := Counter.start
deriving DecidableEq

variable {N : Type} [Counter N]

namespace Names

def nextTemp (names : Names N) : Nat :=
  Counter.number (Counter.next names.temps)

def afterTemp (names : Names N) : Names N :=
  { names with temps := Counter.next names.temps }

def nextLabel (names : Names N) : Label :=
  ⟨Counter.number (Counter.next names.labels)⟩

def afterLabel (names : Names N) : Names N :=
  { names with labels := Counter.next names.labels }

variable {names : Names N}

@[simp] theorem afterTemp_temps : names.afterTemp.temps = Counter.next names.temps := rfl

@[simp] theorem afterTemp_labels : names.afterTemp.labels = names.labels := rfl

@[simp] theorem afterLabel_temps : names.afterLabel.temps = names.temps := rfl

@[simp] theorem afterLabel_labels : names.afterLabel.labels = Counter.next names.labels := rfl

end Names

/-- A supply of names without end. -/
abbrev NameSupply := Names Nat

section

variable {counter : Nat} {supply : NameSupply}

theorem Counter.start_nat : (Counter.start : Nat) = 0 := rfl

@[simp] theorem Counter.next_nat : Counter.next counter = counter + 1 := rfl

@[simp] theorem Names.nextTemp_supply : supply.nextTemp = supply.temps + 1 := rfl

@[simp] theorem Names.nextLabel_supply : supply.nextLabel = ⟨supply.labels + 1⟩ := rfl

end

/-- Work that takes fresh names and may fail. -/
abbrev Lowering (N : Type) [Counter N] := ExceptT InternalFault (StateM (Names N))

namespace Lowering

def freshTemp : Lowering N Nat :=
  modifyGet fun names => (names.nextTemp, names.afterTemp)

def freshLabel : Lowering N Label :=
  modifyGet fun names => (names.nextLabel, names.afterLabel)

end Lowering

end ThreeAddress
