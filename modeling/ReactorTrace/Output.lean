import ReactorTrace.Fault
import ReactorTrace.Row

/-! Destinations of rows. An output is given by what each of its three calls does to its state;
every call may fail, and the state after a failed call counts too. -/

namespace ReactorTrace

structure Output (σ : Type) where
  /-- Writes the column names. -/
  title : σ → Except Fault Unit × σ
  row : Row → σ → Except Fault Unit × σ
  flush : σ → Except Fault Unit × σ

end ReactorTrace
