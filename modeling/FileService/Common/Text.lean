import FileService.Common.Result

/-!
# Text: regular expressions and the character classes of the C locale

`regex_match` is decided by derivatives, on the constructors that the patterns
of the service use. Texts are compared and measured as their UTF-8 bytes where
the source does so.
-/
namespace FileService.Common.Text

inductive Regex where
  | fail
  | eps
  | one (accepts : Char → Bool)
  | seq (a b : Regex)
  | alt (a b : Regex)
  | star (a : Regex)
  | upTo (n : Nat) (a : Regex)

namespace Regex

def nullable : Regex → Bool
  | fail => false
  | eps => true
  | one _ => false
  | seq a b => a.nullable && b.nullable
  | alt a b => a.nullable || b.nullable
  | star _ => true
  | upTo _ _ => true

def mkSeq : Regex → Regex → Regex
  | fail, _ => fail
  | eps, b => b
  | a, b => seq a b

def mkAlt : Regex → Regex → Regex
  | fail, b => b
  | a, fail => a
  | a, b => alt a b

/-- What may follow a first character `c`. -/
def deriv (c : Char) : Regex → Regex
  | fail => fail
  | eps => fail
  | one accepts => if accepts c then eps else fail
  | seq a b =>
    if a.nullable then mkAlt (mkSeq (a.deriv c) b) (b.deriv c) else mkSeq (a.deriv c) b
  | alt a b => mkAlt (a.deriv c) (b.deriv c)
  | star a => mkSeq (a.deriv c) (star a)
  | upTo 0 _ => fail
  | upTo (n + 1) a => mkSeq (a.deriv c) (upTo n a)

def matchesList (r : Regex) : List Char → Bool
  | [] => r.nullable
  | c :: cs => (r.deriv c).matchesList cs

/-- The whole text matches. -/
def regexMatch (r : Regex) (text : String) : Bool := r.matchesList text.toList

def plus (a : Regex) : Regex := seq a (star a)

def opt (a : Regex) : Regex := alt a eps

def chr (c : Char) : Regex := one (· == c)

def concat : List Regex → Regex
  | [] => eps
  | [r] => r
  | r :: rs => seq r (concat rs)

def text (s : String) : Regex := concat (s.toList.map chr)

end Regex

/-- `\w` -/
def isWord (c : Char) : Bool := c.isAlphanum || c == '_'

/-- `.` matches everything but a line terminator. -/
def isDot (c : Char) : Bool := c != '\n' && c != '\r'

def isControl (c : Char) : Bool := c.toNat < 0x20 || c.toNat == 0x7F

def hasControlChars (s : String) : Bool := s.toList.any isControl

/-- `s.find(pattern) != npos` -/
def hasInfix (pattern : List Char) : List Char → Bool
  | [] => pattern.isPrefixOf []
  | c :: cs => pattern.isPrefixOf (c :: cs) || hasInfix pattern cs

def containsText (s pattern : String) : Bool := hasInfix pattern.toList s.toList

def startsWith (s pre : String) : Bool := pre.toList.isPrefixOf s.toList

def toLower (s : String) : String := String.ofList (s.toList.map Char.toLower)

/-- A name in lower case, without its separators. -/
def normalizedName (separators : List Char) (name : String) : String :=
  toLower (String.ofList (name.toList.filter fun c => !separators.contains c))

/-- Split at every `sep`, keeping empty pieces. -/
def splitOnChar (sep : Char) (s : String) : List String :=
  (s.toList.splitOn sep).map String.ofList

/-- `std::string::size`: the number of bytes. -/
def byteSize (s : String) : Nat := s.utf8ByteSize

end FileService.Common.Text
