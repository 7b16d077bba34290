/-! The files of a conversion. Both are named after a root, to which their extensions are appended,
so that dots and slashes in the root stay as they are. -/

namespace ReactorTrace

structure TracePaths where
  trace : String
  csv : String
deriving DecidableEq, Inhabited

namespace TracePaths

def ofRoot (root : String) : TracePaths := ⟨root ++ ".lft", root ++ ".csv"⟩

/-- Puts the table somewhere else. -/
def withOutput (paths : TracePaths) (csv : String) : TracePaths := { paths with csv }

end TracePaths

end ReactorTrace
