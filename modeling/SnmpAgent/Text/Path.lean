/-!
# Paths

A *path* names a file. Following a path from another one is joining their
texts: an absolute path starts anew, and a separator is put in between unless
there is one already. Nothing is normalised.
-/

namespace SnmpAgent.Path

/-- The path reached from `here` by following `there`. -/
def join (here there : String) : String :=
  if there.startsWith "/" then there
  else if here.isEmpty ∨ here.endsWith "/" then here ++ there
  else here ++ "/" ++ there

end SnmpAgent.Path
