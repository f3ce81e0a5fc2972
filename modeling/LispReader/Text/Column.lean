/-! Columns of a listing: a text filled up with spaces to a least width, counted in characters. -/
namespace LispReader.Text

/-- Spaces behind the text. -/
def alignLeft (width : Nat) (s : String) : String :=
  s ++ String.ofList (List.replicate (width - s.length) ' ')

/-- Spaces in front of the text. -/
def alignRight (width : Nat) (s : String) : String :=
  String.ofList (List.replicate (width - s.length) ' ') ++ s

end LispReader.Text
