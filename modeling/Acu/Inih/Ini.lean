import Acu.Core.Lines
import Mathlib.Data.List.DropRight

/-!
# The parser of configuration files

`ini_parse` with a handler and the handler's data. A string in memory is the list of
its bytes; a pointer into it is the string from there on.
-/

namespace Acu.Inih

open Acu.Core Acu.Core.CMemory

def MAX_SECTION : Nat := 50

def MAX_NAME : Nat := 50

def INI_MAX_LINE : Nat := 200

def rstrip (s : Bytes) : Bytes := s.rdropWhile isSpace

def lskip (s : Bytes) : Bytes := s.dropWhile isSpace

/-- The loop of `find_char_or_comment`: what it passes, and the string where it stops. -/
def passed (c : UInt8) (was_whitespace : Bool) : Bytes → Bytes × Bytes
  | [] => ([], [])
  | b :: s =>
      if b ≠ c ∧ ¬ (was_whitespace = true ∧ b = 59) then
        ((passed c (isSpace b) s).1.cons b, (passed c (isSpace b) s).2)
      else ([], b :: s)

def find_char_or_comment (s : Bytes) (c : UInt8) : Bytes × Bytes := passed c false s

/-- The string of an array of `size` bytes that `src` was copied to. -/
def strncpy0 (src : Bytes) (size : Nat) : Bytes := src.take (size - 1)

/-- The byte order mark of UTF-8. -/
def BOM : Bytes := [0xEF, 0xBB, 0xBF]

/-! ## One line -/

/-- What a line of the file turns out to be. -/
inductive Line where
  | ignored
  | header (name : Bytes)
  | pair (name value : Bytes)
  | continued (value : Bytes)
  | malformed
  deriving DecidableEq, Repr

/-- `end` at the first `=`, or else at the first `:`. -/
def findSeparator (start : Bytes) : Bytes × Bytes :=
  if (find_char_or_comment start 61).2.head? = some 61 then find_char_or_comment start 61
  else find_char_or_comment start 58

/-- A `name=value` or `name:value` pair. The value ends in front of a comment. -/
def readPair (start : Bytes) : Line :=
  let (name, found) := findSeparator start
  if found.head? = some 61 ∨ found.head? = some 58 then
    let value := lskip found.tail
    .pair (rstrip name) (rstrip (find_char_or_comment value 0).1)
  else .malformed

/-- A line that does not begin a file: `moved` is the test `start > line`. -/
def readText (moved : Bool) (prev_name start : Bytes) : Line :=
  if start.head? = some 59 ∨ start.head? = some 35 then .ignored
  else if prev_name ≠ [] ∧ start ≠ [] ∧ moved = true then .continued start
  else if start.head? = some 91 then
    let (name, found) := find_char_or_comment start.tail 93
    if found.head? = some 93 then .header name else .malformed
  else if start ≠ [] ∧ start.head? ≠ some 59 then readPair start
  else .ignored

/-- The bytes that `fgets` left in `line`, with `lineno` counted up to this line. -/
def readLine (lineno : Nat) (prev_name line : Bytes) : Line :=
  let text := line.takeWhile (· ≠ 0)
  let bom := decide (lineno = 1) && BOM.isPrefixOf text
  let stripped := rstrip (if bom then text.drop 3 else text)
  let start := lskip stripped
  readText (bom || decide (start.length < stripped.length)) prev_name start

/-! ## The file -/

/-- The handler's data and its result, of which 0 is a refusal. -/
abbrev Handler (σ : Type) := σ → Bytes → Bytes → Bytes → σ × Int

/-- The variables of the loop. -/
structure Parsing (σ : Type) where
  user : σ
  «section» : Bytes
  prev_name : Bytes
  lineno : Nat
  error : Nat

variable {σ : Type}

namespace Parsing

/-- Only the first error is kept. -/
def fail (s : Parsing σ) : Parsing σ := if s.error = 0 then { s with error := s.lineno } else s

def call (handler : Handler σ) (s : Parsing σ) (name value : Bytes) : Parsing σ :=
  let (user, ok) := handler s.user s.section name value
  let s := { s with user := user }
  if ok = 0 then s.fail else s

def take (handler : Handler σ) (s : Parsing σ) : Line → Parsing σ
  | .ignored => s
  | .header name => { s with «section» := strncpy0 name MAX_SECTION, prev_name := [] }
  | .pair name value => { s with prev_name := strncpy0 name MAX_NAME }.call handler name value
  | .continued value => s.call handler s.prev_name value
  | .malformed => s.fail

/-- One round of the loop. -/
def round (handler : Handler σ) (s : Parsing σ) (line : Bytes) : Parsing σ :=
  let s := { s with lineno := s.lineno + 1 }
  s.take handler (readLine s.lineno s.prev_name line)

def start (user : σ) : Parsing σ := ⟨user, [], [], 0, 0⟩

end Parsing

/-- What the calls of `fgets` leave in `line`, one after the other. -/
def lines (file : Bytes) : List Bytes := fgetsAll (INI_MAX_LINE - 1) file

/-- The handler's data afterwards, and the number of the first line in error. -/
def ini_parse_file (handler : Handler σ) (file : Bytes) (user : σ) : σ × Nat :=
  let s := (lines file).foldl (Parsing.round handler) (Parsing.start user)
  (s.user, s.error)

/-- A file that cannot be opened is `none`. -/
def ini_parse (handler : Handler σ) (file : Option Bytes) (user : σ) : σ × Int :=
  match file with
  | none => (user, -1)
  | some file => ((ini_parse_file handler file user).1, (ini_parse_file handler file user).2)

end Acu.Inih
