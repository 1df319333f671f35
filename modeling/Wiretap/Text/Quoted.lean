/-!
# Quoted text

Strings appear in logs between double quotes. The quote and the backslash are written with a
backslash before them, the line feed, the carriage return, the tab and the null character by a
letter or digit, and every other control character of the ASCII range by its code in hexadecimal.
All other characters stand for themselves.
-/

namespace Wiretap.Text

/-- Is this one of the ASCII control characters? -/
def isControl (c : Char) : Bool :=
  c.toNat < 0x20 || c.toNat == 0x7f

/-- The characters written for one character between quotes. -/
def quotedChar (c : Char) : List Char :=
  if c = '"' then ['\\', '"']
  else if c = '\\' then ['\\', '\\']
  else if c = '\n' then ['\\', 'n']
  else if c = '\r' then ['\\', 'r']
  else if c = '\t' then ['\\', 't']
  else if c = Char.ofNat 0 then ['\\', '0']
  else if isControl c then ['\\', 'u', '\x7b'] ++ Nat.toDigits 16 c.toNat ++ ['\x7d']
  else [c]

/-- A string between double quotes. -/
def quoted (s : String) : String :=
  String.ofList ('"' :: s.toList.flatMap quotedChar ++ ['"'])

/-- Texts separated by a comma and a blank, between square brackets. -/
def bracketed (texts : List String) : String :=
  "[" ++ String.intercalate ", " texts ++ "]"

/-- The texts of a list of strings, each of them quoted. -/
def quotedList (texts : List String) : String :=
  bracketed (texts.map quoted)

end Wiretap.Text
