/-!
# Comparison without case

Only the letters of ASCII have a case here.
-/

namespace RemoteCall.Text

def equalIgnoringCase (s t : String) : Bool :=
  s.toList.map Char.toLower == t.toList.map Char.toLower

end RemoteCall.Text
