import RouteDocs.Text.CodePoint
import RouteDocs.Text.Printable

/-!
# Quoted texts

A text is quoted with single quotes, or with double quotes when it holds a
single quote and no double quote. The backslash and the quote in use are
escaped, line feed, carriage return and tab have short forms, and every other
character that is not printable is written by its code point in two, four or
eight hexadecimal digits. So is a half that stands alone.
-/
namespace RouteDocs.Text

/-- The hexadecimal digit of a number below sixteen. -/
def hexDigit (n : Nat) : Char :=
  if n < 10 then Char.ofNat (0x30 + n) else Char.ofNat (0x57 + n)

/-- The last `width` hexadecimal digits of a number. -/
def hexDigits (width n : Nat) : List Char :=
  match width with
  | 0 => []
  | width + 1 => hexDigits width (n / 16) ++ [hexDigit (n % 16)]

/-- A character written by its code point. -/
def codePointEscape (c : Char) : List Char :=
  let n := c.toNat
  if n < 0x100 then '\\' :: 'x' :: hexDigits 2 n
  else if n < 0x10000 then '\\' :: 'u' :: hexDigits 4 n
  else '\\' :: 'U' :: hexDigits 8 n

/-- The quote for a text: double when only that spares an escape. -/
def quoteFor (s : WideText) : Char :=
  if s.contains (.char '\'') && !s.contains (.char '"') then '"' else '\''

/-- One character between quotes. Characters for which `shown` fails go by code point. -/
def quotedChar (shown : Char → Bool) (quote c : Char) : List Char :=
  if c = quote || c = '\\' then ['\\', c]
  else if c = '\n' then ['\\', 'n']
  else if c = '\r' then ['\\', 'r']
  else if c = '\t' then ['\\', 't']
  else if shown c then [c]
  else codePointEscape c

def quotedCodePoint (shown : Char → Bool) (quote : Char) : CodePoint → List Char
  | .char c => quotedChar shown quote c
  | .half n => '\\' :: 'u' :: hexDigits 4 (CodePoint.firstHalf + n.val)

/-- A wide text in quotes, with `shown` telling the characters that stand for themselves. -/
def quotedWideWith (shown : Char → Bool) (s : WideText) : List Char :=
  let quote := quoteFor s
  quote :: s.flatMap (quotedCodePoint shown quote) ++ [quote]

/-- A text in quotes, with `shown` telling the characters that stand for themselves. -/
def quotedWith (shown : Char → Bool) (s : List Char) : List Char :=
  quotedWideWith shown (WideText.ofChars s)

def quotedWide (s : WideText) : String :=
  String.ofList (quotedWideWith isPrintable s)

def quoted (s : String) : String :=
  quotedWide (WideText.ofString s)

end RouteDocs.Text
