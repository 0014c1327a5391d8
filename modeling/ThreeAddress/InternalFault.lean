namespace ThreeAddress

/-- What a hand-made tree may lack: a type on a temporary, a loop around a break, a
declaration of a name, or storage that can be addressed. -/
inductive InternalFault where
  | untypedTemporary (number : Nat)
  | strayBreak
  | noSymbol (name : String)
  | strideOverflow (name : String)
  | literalTooLarge (value : Nat)
deriving DecidableEq

def InternalFault.message : InternalFault → String
  | .untypedTemporary number => "temporary 't" ++ toString number ++ "' has no type"
  | .strayBreak => "'break' outside of loop"
  | .noSymbol name => "no symbol for '" ++ name ++ "'"
  | .strideOverflow name => "stride of '" ++ name ++ "' overflows"
  | .literalTooLarge value => "array size " ++ toString value ++ " does not fit an int"

end ThreeAddress
