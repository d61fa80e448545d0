import ResourceMetrics.StatError

/-!
A control group shows its memory and swap usage as one number on the first line of a file, and
its limits the same way, with the word `max` for no limit.
-/

namespace ResourceMetrics

/-- The word for a limit that is not set. -/
def unlimitedWord : Text := "max".toList

namespace MemoryAmount

def read (contents : Bytes) : Except StatError Counter := do
  let line ← firstLine contents
  readValue 1 line.trim

end MemoryAmount

namespace MemoryLimit

def read (contents : Bytes) : Except StatError (Option Counter) := do
  let line ← firstLine contents
  if line.trim = unlimitedWord then pure none
  else some <$> readValue 1 line.trim

end MemoryLimit

end ResourceMetrics
