/-
# Quoted text

Running text shows a name between double quotes.  A quote, a backslash and the common controls are
written as a backslash and one letter; a character that would not be seen, or that would be drawn
on its neighbour, is written by its code point in hexadecimal; all others stand for themselves.
-/
import Lineup.Text.Unprintable
import Lineup.Text.GraphemeExtend

namespace Lineup.Text

/-- The letter that follows the backslash for a character with a short escape. -/
def shortEscape? : Char → Option Char
  | '"' => some '"'
  | '\\' => some '\\'
  | '\n' => some 'n'
  | '\r' => some 'r'
  | '\t' => some 't'
  | '\x00' => some '0'
  | _ => none

/-- Whether a character is shown by its code point. -/
def isHidden (c : Char) : Bool :=
  extendsGrapheme c || isUnprintable c

/-- The code point of a character in lower-case hexadecimal, between braces. -/
def codePoint (c : Char) : List Char :=
  '\\' :: 'u' :: '{' :: Nat.toDigits 16 c.toNat ++ ['}']

def quotedChar (c : Char) : List Char :=
  match shortEscape? c with
  | some letter => ['\\', letter]
  | none => if isHidden c then codePoint c else [c]

def quoted (text : List Char) : List Char :=
  '"' :: text.flatMap quotedChar ++ ['"']

theorem quotedChar_of_visible {c : Char} (h : shortEscape? c = none) (hc : isHidden c = false) :
    quotedChar c = [c] := by
  simp [quotedChar, h, hc]

theorem quotedChar_ne_nil (c : Char) : quotedChar c ≠ [] := by
  unfold quotedChar
  split
  · simp
  · split <;> simp [codePoint]

end Lineup.Text
