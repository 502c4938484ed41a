import LiveMarkup.Counter

/-!
# The counter as a program

The arguments are the numbers of clicks of the frames.
-/

/-- Writes what the counter shows for its arguments. -/
def main (args : List String) : IO UInt32 := do
  (← IO.getStdout).putStr (LiveMarkup.Counter.output args)
  return 0
