/-!
# Splitting texts

Parts of a text between marks, and the cut at one mark.
-/
namespace Automation.Text

/-- The parts of a text between the marks. -/
def splitAt (mark : Char) (text : String) : List String :=
  (text.toList.splitOn mark).map String.ofList

/-- The text before the first mark and the text after it. -/
def cutAtFirst? (mark : Char) (text : String) : Option (String × String) :=
  let before := text.toList.takeWhile (· != mark)
  match text.toList.drop before.length with
  | [] => none
  | _ :: after => some (String.ofList before, String.ofList after)

/-- The text before the last mark and the text after it. -/
def cutAtLast? (mark : Char) (text : String) : Option (String × String) :=
  let after := text.toList.reverse.takeWhile (· != mark)
  match text.toList.reverse.drop after.length with
  | [] => none
  | _ :: before => some (String.ofList before.reverse, String.ofList after.reverse)

end Automation.Text
