import BuildDesc.Text.Separated

namespace BuildDesc.FileVersion

def size : Nat := 4

/-- The numbers of a version: what stands between its dots, as far as it is digits. Missing numbers
are zero, and further ones are dropped. -/
def parts (version : String) : List (List Char) :=
  let parts := Separated.split '.' (version.toList.filter fun c => c.isDigit || c == '.')
  (parts ++ List.replicate size ['0']).take size

def ofVersion (version : String) : String :=
  String.ofList (Separated.join ',' (parts version))

end BuildDesc.FileVersion
