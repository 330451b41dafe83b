/-!
The forms in which the store writes what it holds: lists in square brackets, sets in curly ones,
and records as a name with fields.
-/
namespace EntityStore.Text

def bracketed (items : List String) : String := "[" ++ ", ".intercalate items ++ "]"

def braced (items : List String) : String := "\x7b" ++ ", ".intercalate items ++ "\x7d"

def number (n : Nat) : String := String.ofList (Nat.toDigits 10 n)

def numbers (ns : List Nat) : String := bracketed (ns.map number)

/-- A name, and the fields each with its content. -/
def record (name : String) (fields : List (String × String)) : String :=
  name ++ " \x7b " ++ ", ".intercalate (fields.map fun f => f.1 ++ ": " ++ f.2) ++ " \x7d"

end EntityStore.Text
