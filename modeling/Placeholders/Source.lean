namespace Placeholders

/-- Reads a file by its path, and the input; either may fail with a reason. -/
structure Source (m : Type → Type) where
  file : String → m (Except String String)
  input : m (Except String String)

end Placeholders
