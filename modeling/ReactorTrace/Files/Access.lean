import ReactorTrace.Source

/-! Access to files, over whatever keeps them. A file is opened for reading before its contents
are looked at, so that what is read is what the file holds then, and not what it held when it was
opened. -/

namespace ReactorTrace

structure FileAccess (m : Type → Type) where
  Opened : Type
  Created : Type
  openFile : String → m (Except IoFault Opened)
  /-- Makes an empty file, or empties the one that is there. -/
  createFile : String → m (Except IoFault Created)
  contents : Opened → m Source
  /-- Fills an emptied file with a text. -/
  fill : Created → String → m Unit

end ReactorTrace
