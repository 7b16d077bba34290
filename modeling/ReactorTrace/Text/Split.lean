import Mathlib.Data.List.Infix

/-! Texts cut at a separator, which is not empty. `split` looks for its occurrences from left to right and
cuts at each of them; `splitFromRight` looks for a number of them from right to left. Occurrences do not
overlap. -/

namespace ReactorTrace.Text

namespace Split

variable {α : Type} [DecidableEq α]

/-- What stands between the occurrences of a separator. -/
def pieces (separator : List α) : List α → List (List α)
  | [] => [[]]
  | a :: text =>
    if separator <+: a :: text then [] :: pieces separator (text.drop (separator.length - 1))
    else (pieces separator text).modifyHead (a :: ·)
termination_by text => text.length
decreasing_by
  · simp only [List.length_drop, List.length_cons]
    omega
  · exact Nat.lt_succ_self _

/-- What stands before the last occurrence of a separator, and what stands behind it. -/
def cutLast? (separator : List α) : List α → Option (List α × List α)
  | [] => none
  | a :: text =>
    match cutLast? separator text with
    | some (front, last) => some (a :: front, last)
    | none =>
      if separator <+: a :: text then some ([], (a :: text).drop separator.length) else none

/-- What stands before the last `count` occurrences of a separator, and the pieces behind them. -/
def fromRight (separator : List α) : (count : Nat) → List α → List α × List (List α)
  | 0, text => (text, [])
  | count + 1, text =>
    match cutLast? separator text with
    | none => (text, [])
    | some (front, last) =>
      ((fromRight separator count front).1, (fromRight separator count front).2 ++ [last])

end Split

def split (separator text : String) : List String :=
  (Split.pieces separator.toList text.toList).map String.ofList

def splitFromRight (separator : String) (count : Nat) (text : String) : String × List String :=
  (String.ofList (Split.fromRight separator.toList count text.toList).1,
    (Split.fromRight separator.toList count text.toList).2.map String.ofList)

end ReactorTrace.Text
