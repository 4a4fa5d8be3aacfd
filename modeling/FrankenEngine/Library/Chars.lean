import Mathlib.Algebra.Ring.Nat
import Mathlib.Data.String.Basic

/-!
# Texts as characters

Trimming, searching, splitting and reading numbers, with the meaning the
standard library of the source language gives them.
-/

set_option autoImplicit false

namespace FrankenEngine.Library.Chars

open List

def isWhitespace (char : Char) : Bool :=
  let code := char.toNat
  (9 ≤ code && code ≤ 13) || code == 0x20 || code == 0x85 || code == 0xA0 || code == 0x1680 ||
    (0x2000 ≤ code && code ≤ 0x200A) || code == 0x2028 || code == 0x2029 || code == 0x202F ||
    code == 0x205F || code == 0x3000

variable (text : List Char)

def trim : List Char :=
  ((text.dropWhile isWhitespace).reverse.dropWhile isWhitespace).reverse

/-- What follows the first place where `pattern` occurs, with what stands before it. -/
def splitOnce (pattern : List Char) : List Char → Option (List Char × List Char)
  | [] => if pattern = [] then some ([], []) else none
  | char :: rest =>
    if pattern.isPrefixOf (char :: rest) then some ([], (char :: rest).drop pattern.length)
    else (splitOnce pattern rest).map fun parts => (char :: parts.1, parts.2)

def contains (pattern text : List Char) : Bool := (splitOnce pattern text).isSome

def split (separator : Char) : List Char → List (List Char)
  | [] => [[]]
  | char :: rest =>
    if char = separator then [] :: split separator rest
    else
      match split separator rest with
      | [] => [[char]]
      | piece :: pieces => (char :: piece) :: pieces

theorem split_eq_splitOn (separator : Char) (text : List Char) :
    split separator text = text.splitOn separator := by
  induction text with
  | nil => rfl
  | cons char rest ih =>
    rw [split, ih, splitOn_cons_eq_if_modifyHead]
    cases pieces : rest.splitOn separator with
    | nil => exact absurd pieces (splitOn_ne_nil separator rest)
    | cons => simp

theorem split_ne_nil (separator : Char) (text : List Char) : split separator text ≠ [] := by
  rw [split_eq_splitOn]
  exact splitOn_ne_nil separator text

def toAsciiLowercase : List Char :=
  text.map fun char => if 'A' ≤ char ∧ char ≤ 'Z' then Char.ofNat (char.toNat + 32) else char

def parseDigits : Option Nat :=
  if text = [] then none
  else
    text.foldlM (fun number char =>
      if '0' ≤ char ∧ char ≤ '9' then some (10 * number + (char.toNat - '0'.toNat)) else none) 0

def parseI64 : Option Int64 :=
  match text with
  | '-' :: digits => do
      let number ← parseDigits digits
      if number ≤ 2 ^ 63 then some (Int64.ofInt (-number)) else none
  | '+' :: digits => do
      let number ← parseDigits digits
      if number < 2 ^ 63 then some (Int64.ofInt number) else none
  | digits => do
      let number ← parseDigits digits
      if number < 2 ^ 63 then some (Int64.ofInt number) else none

def parseU64 : Option Nat := do
  let digits := match text with
    | '+' :: digits => digits
    | digits => digits
  let number ← parseDigits digits
  if number < 2 ^ 64 then some number else none

end FrankenEngine.Library.Chars
