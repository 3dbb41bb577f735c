import HttpUri.Text.Quoted
import HttpUri.Number.Numeral

/-! Protocol versions of messages. -/
namespace HttpUri

structure Version where
  protocol : Text
  major : Int
  minor : Int
  deriving DecidableEq, Repr

namespace Version

def http10 : Version := ⟨"HTTP".points, 1, 0⟩

def http11 : Version := ⟨"HTTP".points, 1, 1⟩

def toText (v : Version) : Text :=
  v.protocol ++ .char '/' :: Numeral.ofInt v.major ++ .char '.' :: Numeral.ofInt v.minor

def shown (v : Version) : Text :=
  "ProtocolVersion(protocol=".points ++ Text.quoted v.protocol ++ ", major=".points ++
    Numeral.ofInt v.major ++ ", minor=".points ++ Numeral.ofInt v.minor ++ [.char ')']

end Version
end HttpUri
